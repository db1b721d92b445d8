/-
This file embeds `Publish` of the broadcast service, with the direct messages it sends to the
consumers that have an identity and the shared one to the feature for all others, and what the
receiving tasks do with them. It says exactly when the result of `Publish` tells what is delivered.
`Publish` holds the lock of the feature while it sends, and the receivers wait for it; the table
does not change until the messages are processed. The messages to the feature come to its
`OnMessage`, and every consumer has a `Notify`.
-/

import Mathlib.Data.List.Basic
import Mathlib.Data.List.Perm.Basic
import TowerSafe.Samgr.Message
import TowerSafe.Samgr.PubSub

namespace TowerSafe.Publish

open Message PubSub List Option

/-! ### Sending -/

/-- `Consumer`, by its address. -/
structure Consumer where
  address : Nat
  identity : Option Identity
  deriving DecidableEq

/-- The handlers of messages. -/
inductive Handler where
  | defaultHandle
  deriving DecidableEq

def msgPublish : Int := 1

/-- The variables of `ImmediatelyPublish`, with the heap, what was put into queues, and how many
messages were sent. -/
structure Sending where
  needAync : Bool
  token : Option Nat
  heap : Heap
  queued : List (Exchange Handler)
  sends : Nat

namespace Sending

/-- A message was sent. -/
def after (sending : Sending) (sent : Sent Handler) : Sending :=
  { sending with
    token := sent.sharedRef
    heap := sent.heap
    queued := sending.queued ++ sent.put.toList
    sends := sending.sends + 1 }

end Sending

section Publishing

variable (request : Request) (outcome : Nat → Outcome)

end Publishing

/-- A call of `Publish` and what it meets: the table, the identity and the heap, whether there is
memory for the data, and what each send comes to. -/
structure Call where
  relations : List (Relation Consumer)
  identity : Identity
  heap : Heap
  topic : Topic
  data : Option (List (BitVec 8))
  len : Int
  memory : Bool
  outcome : Nat → Outcome

namespace Call

variable (call : Call)

/-- The consumers that are subscribed to the topic. -/
def subscribed : List Consumer :=
  match getRelation call.relations call.topic with
  | none => []
  | some relation => callbacksOf call.relations relation

def payload : List (BitVec 8) :=
  (call.data.getD []).take call.len.toNat

end Call

/-! ### Processing -/

/-- A consumer is notified of a topic; a payload that is `none` was freed before. -/
structure Notification where
  consumer : Nat
  topic : Topic
  payload : Option (List (BitVec 8))
  deriving DecidableEq

/-- The bytes of a request. -/
def readPayload (heap : Heap) (request : Request) : Option (List (BitVec 8)) :=
  match request.data with
  | none => some []
  | some data => heap.data data

/-- What processing a message notifies: `DefaultHandle` for a direct one and `OnMessage` for one to
the feature. -/
def notifications (relations : List (Relation Consumer)) (payload : Option (List (BitVec 8)))
    (exchange : Exchange Handler) : List Notification :=
  match exchange.type with
  | .msgDirect =>
      match exchange.handler, exchange.response.data with
      | some .defaultHandle, some consumer => [⟨consumer, exchange.request.msgValue, payload⟩]
      | _, _ => []
  | .msgNon =>
      if exchange.request.msgId = msgPublish then
        match getRelation relations exchange.request.msgValue with
        | none => []
        | some relation =>
            ((callbacksOf relations relation).filter fun item => item.identity.isNone).map
              fun item => ⟨item.address, exchange.request.msgValue, payload⟩
      else []
  | _ => []

/-- The receiving tasks process messages and free them. -/
def process (relations : List (Relation Consumer)) :
    Heap → List (Exchange Handler) → List Notification
  | _, [] => []
  | heap, exchange :: rest =>
      notifications relations (readPayload heap exchange.request) exchange ++
        process relations (samgrFreeMsg heap exchange) rest

/-- Whether a send succeeds: the first one of data needs memory for the reference word. -/
def succeeds (shared : Bool) (outcome : Nat → Outcome) (send : Nat) : Bool :=
  (outcome send).room && (!shared || send != 0 || (outcome send).memory)

/-- What was put carries the request, and for data the token counts it. -/
structure Carried (request : Request) (payload : List (BitVec 8)) (sending : Sending) : Prop where
  carries : ∀ exchange ∈ sending.queued, exchange.request = request ∧
    exchange.response.len = 0 ∧ exchange.sharedRef = sending.token
  unshared : request.hasData = false → sending.token = none
  token : request.hasData = true → (sending.token = none ↔ sending.queued = [])
  counted : ∀ token, sending.token = some token →
    sending.heap.word token = some sending.queued.length
  data : ∀ data, request.data = some data → request.hasData = true ∧
    sending.heap.data data = some payload ∧ data < sending.heap.next ∧
      ∀ token, sending.token = some token → token ≠ data

section Sends

variable {request : Request} {payload : List (BitVec 8)} {sending : Sending}
  {exchange : Exchange Handler} {outcome : Outcome}

/-- A message that carries the request is sent. -/
structure Carries (request : Request) (token : Option Nat) (exchange : Exchange Handler) :
    Prop where
  request : exchange.request = request
  response : exchange.response.len = 0
  sharedRef : exchange.sharedRef = token

theorem Carries.hasData (carries : Carries request sending.token exchange) :
    exchange.hasData = request.hasData := by
  rw [Exchange.hasData, Response.hasData, carries.request, carries.response]
  simp

end Sends

/-! ### The loop over the consumers -/

/-- The consumers with an identity, which get a direct message. -/
def identified (callbacks : List Consumer) : List Consumer :=
  callbacks.filter fun consumer => consumer.identity.isSome

/-- What is to be notified of a consumer. -/
def note (topic : Topic) (payload : Option (List (BitVec 8))) (consumer : Consumer) :
    Notification :=
  ⟨consumer.address, topic, payload⟩

section Loop

variable {relations : List (Relation Consumer)} {request : Request} {payload : List (BitVec 8)}
  {outcome : Nat → Outcome} {bytes : Option (List (BitVec 8))}

/-- How the loop went: through all consumers, or up to one whose message was not sent. -/
structure Looped (relations : List (Relation Consumer)) (request : Request)
    (payload : List (BitVec 8)) (bytes : Option (List (BitVec 8))) (outcome : Nat → Outcome)
    (before after : Sending) (front back : List Consumer) : Prop where
  carried : Carried request payload after
  notes : after.queued.flatMap (notifications relations bytes) =
    before.queued.flatMap (notifications relations bytes) ++
      (identified front).map (note request.msgValue bytes)
  length : after.queued.length = before.queued.length + (identified front).length
  sent : ∀ send < (identified front).length,
    succeeds request.hasData outcome (before.sends + send) = true
  ended : (back = [] ∧ after.sends = after.queued.length ∧
      after.needAync = (before.needAync || front.any fun consumer => consumer.identity.isNone)) ∨
    (identified back ≠ [] ∧ after.needAync = false ∧
      succeeds request.hasData outcome (before.sends + (identified front).length) = false)

theorem Looped.cons {sending next after : Sending} {item : Consumer} {front back : List Consumer}
    {exchange : Exchange Handler} (some_ : item.identity.isSome = true)
    (success : succeeds request.hasData outcome sending.sends = true)
    (put : next.queued = sending.queued ++ [exchange]) (sends : next.sends = sending.sends + 1)
    (needAync : next.needAync = sending.needAync)
    (notes : notifications relations bytes exchange = [note request.msgValue bytes item])
    (looped : Looped relations request payload bytes outcome next after front back) :
    Looped relations request payload bytes outcome sending after (item :: front) back := by
  have listed : identified (item :: front) = item :: identified front :=
    filter_cons_of_pos some_
  refine ⟨looped.carried, ?_, ?_, ?_, ?_⟩
  · rw [looped.notes, put, listed, flatMap_append, flatMap_singleton, notes,
      append_assoc]
    rfl
  · rw [looped.length, put, listed, length_append, length_cons, length_cons,
      length_nil, Nat.add_assoc, Nat.add_comm 1]
  · rw [listed]
    intro send below
    cases send with
    | zero => exact success
    | succ send =>
      have later := looped.sent send (Nat.lt_of_succ_lt_succ below)
      rwa [sends, Nat.add_assoc, Nat.add_comm 1] at later
  · rw [listed]
    refine looped.ended.imp (fun through => ⟨through.1, through.2.1, ?_⟩) fun failed =>
      ⟨failed.1, failed.2.1, ?_⟩
    · have named : item.identity.isNone = false := by
        rw [isNone_eq_false_iff]
        exact some_
      rw [through.2.2, needAync, any_cons, named, Bool.false_or]
    · have last := failed.2.2
      rwa [sends, Nat.add_assoc, Nat.add_comm 1] at last

/-- The consumers without an identity, which the feature notifies. -/
def unidentified (callbacks : List Consumer) : List Consumer :=
  callbacks.filter fun consumer => consumer.identity.isNone

/-- How many messages are sent when all of them can be. -/
def sends (callbacks : List Consumer) : Nat :=
  (identified callbacks).length + if unidentified callbacks = [] then 0 else 1

variable {callbacks : List Consumer} {identity : Identity} {heap : Heap}

end Loop

/-! ### Processing what was put -/

section Processing

variable {relations : List (Relation Consumer)} {request : Request} {payload : List (BitVec 8)}
  {heap : Heap}

theorem samgrFreeMsg_of_no_data {exchange : Exchange Handler}
    (carries : Carries request none exchange) (empty : request.hasData = false) :
    samgrFreeMsg heap exchange = heap := by
  have nothing : (if 0 < request.len then heap.free request.data else heap) = heap := by
    split
    · next long =>
      have absent : request.data = none := by simpa [Request.hasData, long] using empty
      rw [absent]
      rfl
    · rfl
  unfold samgrFreeMsg freeReference
  rw [carries.sharedRef, carries.request, carries.response]
  rw [if_pos rfl, if_neg (Int.lt_irrefl 0), nothing]

theorem process_of_no_data (empty : request.hasData = false) {order : List (Exchange Handler)}
    (carries : ∀ exchange ∈ order, Carries request none exchange) : process relations heap order =
      order.flatMap (notifications relations (readPayload heap request)) := by
  induction order with
  | nil => rfl
  | cons exchange rest hypothesis =>
    have first := carries exchange mem_cons_self
    rw [process, samgrFreeMsg_of_no_data first empty, first.request, flatMap_cons,
      hypothesis fun one member => carries one (mem_cons_of_mem _ member)]

theorem process_of_data {token data : Nat} (address : request.data = some data)
    {order : List (Exchange Handler)} (bytes : heap.data data = some payload)
    (counted : heap.word token = some order.length)
    (carries : ∀ exchange ∈ order, Carries request (some token) exchange) :
    process relations heap order = order.flatMap (notifications relations (some payload)) := by
  induction order generalizing heap with
  | nil => rfl
  | cons exchange rest hypothesis =>
    have first := carries exchange mem_cons_self
    have read : readPayload heap exchange.request = some payload := by
      rw [first.request, readPayload, address]
      exact bytes
    rw [process, read, flatMap_cons]
    cases rest with
    | nil => rfl
    | cons next rest =>
      rw [samgrFreeMsg_of_shared first.sharedRef counted (Nat.succ_pos _),
        @hypothesis (heap.modifyWord token (· - 1)) bytes (by simp [Heap.modifyWord, counted])
          fun one member => carries one (mem_cons_of_mem _ member)]

theorem Carried.process {sending : Sending} (carried : Carried request payload sending)
    {order : List (Exchange Handler)} (perm : order.Perm sending.queued) :
    process relations sending.heap order = order.flatMap (notifications relations
      (some (if request.hasData then payload else []))) := by
  have carries : ∀ exchange ∈ order, Carries request sending.token exchange := by
    intro exchange member
    obtain ⟨same, response, sharedRef⟩ := carried.carries exchange (perm.mem_iff.mp member)
    exact ⟨same, response, sharedRef⟩
  cases data : request.hasData with
  | false =>
    rw [carried.unshared data] at carries
    rw [process_of_no_data data carries, if_neg Bool.false_ne_true]
    cases address : request.data with
    | none => rw [readPayload, address]
    | some found => exact absurd (carried.data found address).1 (by simp [data])
  | true =>
    obtain ⟨address, found⟩ := isSome_iff_exists.mp (Bool.and_eq_true_iff.mp data).1
    cases token : sending.token with
    | none =>
      have empty := (carried.token data).mp token
      rw [empty] at perm
      rw [perm.eq_nil]
      rfl
    | some token_ =>
      rw [token] at carries
      refine process_of_data found (carried.data address found).2.1 ?_ carries
      rw [perm.length_eq]
      exact carried.counted token_ token

end Processing

/-! ### The result -/

namespace Call

variable {call : Call}

end Call

/-! ### Publications that do not tell -/

end TowerSafe.Publish
