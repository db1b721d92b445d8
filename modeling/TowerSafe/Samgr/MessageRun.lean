/-
This file embeds runs of `message.c` and `task_manager.c`: requests and answers that are sent to the
queues of any number of tasks, with or without a shared reference, and freed by the tasks that
processed them. In every run in which callers send data that is their own, or data that goes with
the reference they pass, the references count the exchanges, and data is freed once.

Adding a reference, putting an exchange, and giving a reference back are steps of their own; an
exchange that its sender has counted and not put yet carries what it carries. Whether there is
memory, and whether a queue has room, is left open.
-/

import Mathlib.Algebra.Order.Group.Multiset
import Mathlib.Data.Multiset.Fintype
import TowerSafe.Library.Places
import TowerSafe.Library.Transition
import TowerSafe.Samgr.Ownership

namespace TowerSafe.MessageRun

open Library Message List Option

variable {Handler : Type}

/-! ### The system -/

/-- A task, with its queue and the exchange that it processes. It is `responding` between
`SharedSend` of an answer and `QUEUE_Put`. -/
structure Task (Handler : Type) where
  queue : List (Exchange Handler)
  current : Option (Exchange Handler)
  responding : Bool

/-- The heap, the tasks, the exchanges that are sent and not put yet, and the buffers that were
handed over, with the word of the exchange that carried them. -/
structure System (Handler : Type) where
  heap : Heap
  tasks : List (Task Handler)
  sending : List (Option Nat × Exchange Handler)
  handed : List (Option Nat × Nat)

/-- The exchange of `SAMGR_SendRequest`; `current` is the queue of the task that sends. -/
def plainRequest (identity : Identity) (request : Request) (handler : Option Handler)
    (current : Option Nat) : Exchange Handler :=
  ⟨{ identity with queueId := if handler.isSome then current else none }, request, ⟨none, 0⟩,
    if handler.isSome then .msgCon else .msgNon, handler, none⟩

/-- The exchange of `SAMGR_SendSharedRequest`. -/
def sharedRequest (identity : Identity) (request : Request) (token : Option Nat)
    (handler : Option Handler) : Exchange Handler :=
  ⟨{ identity with queueId := none }, request, ⟨none, 0⟩,
    if handler.isNone then .msgNon else .msgCon, handler, token⟩

/-- The exchange of `SAMGR_SendSharedDirectRequest`. -/
def sharedDirectRequest (id : Identity) (request : Request) (response : Response)
    (ref : Option Nat) (handler : Handler) : Exchange Handler :=
  ⟨{ id with queueId := none }, request, response, .msgDirect, some handler, ref⟩

/-- The exchange of `SAMGR_SendResponse`. -/
def answerOf (exchange : Exchange Handler) (response : Response) : Exchange Handler :=
  { exchange with type := .msgAck, response := response }

/-- What a task has of exchanges; an answer that it sends counts twice. -/
def Task.exchanges (task : Task Handler) : List (Exchange Handler) :=
  task.queue ++
    match task.current with
    | none => []
    | some exchange => if task.responding then [exchange, exchange] else [exchange]

/-- What an exchange hands over when it is put. -/
def handedOver (exchange : Exchange Handler) : List (Option Nat × Nat) :=
  exchange.buffers.map fun buffer => (exchange.sharedRef, buffer)

inductive Action (Handler : Type) where
  /-- Somebody allocates data. -/
  | alloc (bytes : List (BitVec 8))
  | sendRequest (identity : Identity) (request : Request) (handler : Option Handler)
      (current : Option Nat)
  /-- `SAMGR_SendSharedRequest` up to `QUEUE_Put`. -/
  | sendSharedRequest (identity : Identity) (request : Request) (token : Option Nat)
      (handler : Option Handler) (memory : Bool)
  /-- `SAMGR_SendSharedDirectRequest` up to `QUEUE_Put`. -/
  | sendSharedDirectRequest (id : Identity) (request : Request) (response : Response)
      (ref : Option Nat) (handler : Handler) (memory : Bool)
  /-- `QUEUE_Put`, and `FreeReference` when it fails. -/
  | put (place : Nat) (room : Bool)
  /-- `SAMGR_MsgRecv`. -/
  | receive (task : Nat)
  /-- `SAMGR_SendResponse` up to `QUEUE_Put`. -/
  | sendResponse (task : Nat) (response : Response) (memory : Bool)
  /-- `QUEUE_Put` of an answer, and `FreeReference` when it fails. -/
  | putResponse (task : Nat) (room : Bool)
  /-- `SAMGR_FreeMsg`. -/
  | freeMsg (task : Nat)

namespace System

variable (system : System Handler)

def setTask (place : Nat) (task : Task Handler) : System Handler :=
  { system with tasks := system.tasks.set place task }

def setHeap (heap : Heap) : System Handler :=
  { system with heap := heap }

def accepts (queueId : Option Nat) : Bool :=
  queueId.any fun queue => queue < system.tasks.length

/-- `QUEUE_Put` of an exchange into a queue that has room. -/
def queuePut (queueId : Option Nat) (exchange : Exchange Handler) : System Handler :=
  { system with
    tasks :=
      match queueId with
      | none => system.tasks
      | some queue =>
          system.tasks.modify queue fun task => { task with queue := task.queue ++ [exchange] }
    handed := system.handed ++ handedOver exchange }

/-- `SharedSend` of a request up to `QUEUE_Put`. -/
def startSend (queueId : Option Nat) (exchange : Exchange Handler) (memory : Bool) :
    System Handler :=
  match addReference system.heap exchange 0 memory with
  | none => system.setHeap (freeReference system.heap exchange).2.2
  | some sent =>
      { system with heap := sent.2, sending := system.sending ++ [(queueId, sent.1)] }

/-- `SharedSend` of an answer up to `QUEUE_Put`. -/
def startResponse (place : Nat) (queue : List (Exchange Handler)) (exchange : Exchange Handler)
    (memory : Bool) : System Handler :=
  match addReference system.heap exchange 1 memory with
  | none =>
      (system.setHeap (freeReference system.heap exchange).2.2).setTask place
        ⟨queue, some (freeReference system.heap exchange).2.1, false⟩
  | some sent => (system.setHeap sent.2).setTask place ⟨queue, some sent.1, true⟩

def step : Action Handler → Option (System Handler)
  | .alloc bytes => some (system.setHeap (system.heap.mallocData bytes).2)
  | .sendRequest identity request handler current =>
      some { system with
        sending := system.sending ++
          [(identity.queueId, plainRequest identity request handler current)] }
  | .sendSharedRequest identity request token handler memory =>
      some (system.startSend identity.queueId (sharedRequest identity request token handler) memory)
  | .sendSharedDirectRequest id request response ref handler memory =>
      some (system.startSend id.queueId (sharedDirectRequest id request response ref handler)
        memory)
  | .put place room =>
      (system.sending[place]?).map fun sent =>
        let left := { system with sending := system.sending.eraseIdx place }
        if room && system.accepts sent.1 then left.queuePut sent.1 sent.2
        else left.setHeap (freeReference system.heap sent.2).2.2
  | .receive place =>
      match system.tasks[place]? with
      | some ⟨exchange :: queue, none, false⟩ =>
          some (system.setTask place ⟨queue, some exchange, false⟩)
      | _ => none
  | .sendResponse place response memory =>
      match system.tasks[place]? with
      | some ⟨queue, some exchange, false⟩ =>
          if exchange.type = .msgCon ∧ exchange.handler.isSome then
            let answered :=
              { system with
                handed := system.handed ++ response.buffers.map fun buffer => (none, buffer) }
            if exchange.id.queueId.isNone then
              some (answered.setTask place ⟨queue, some (answerOf exchange response), false⟩)
            else some (answered.startResponse place queue (answerOf exchange response) memory)
          else none
      | _ => none
  | .putResponse place room =>
      match system.tasks[place]? with
      | some ⟨queue, some exchange, true⟩ =>
          if room && system.accepts exchange.id.queueId then
            some ((system.setTask place ⟨queue, some exchange, false⟩).queuePut
              exchange.id.queueId exchange)
          else
            some ((system.setHeap (freeReference system.heap exchange).2.2).setTask place
              ⟨queue, some (freeReference system.heap exchange).2.1, false⟩)
      | _ => none
  | .freeMsg place =>
      match system.tasks[place]? with
      | some ⟨queue, some exchange, false⟩ =>
          some ((system.setHeap (samgrFreeMsg system.heap exchange)).setTask place
            ⟨queue, none, false⟩)
      | _ => none

/-! ### What is carried -/

/-- The exchanges in queues, in processing, or being sent. -/
def carriers : Multiset (Exchange Handler) :=
  (system.tasks.map fun task => (task.exchanges : Multiset (Exchange Handler))).sum +
    (system.sending.map Prod.snd : Multiset (Exchange Handler))

/-- References count the exchanges; data is there as long as an exchange carries it, it is freed
afterwards together with its reference word, and nothing is freed twice. -/
structure Owned : Prop where
  counted : ∀ word count, system.heap.word word = some count → count = refs system.carriers word
  words : ∀ exchange ∈ system.carriers, ∀ word, exchange.sharedRef = some word →
    (system.heap.word word).isSome = true
  kept : ∀ exchange ∈ system.carriers, ∀ buffer ∈ exchange.buffers,
    (system.heap.data buffer).isSome = true
  freed : ∀ one ∈ system.handed, (∀ exchange ∈ system.carriers, one.2 ∉ exchange.buffers) →
    one.2 ∈ system.heap.freed ∧ ∀ word, one.1 = some word → word ∈ system.heap.freed
  once : system.heap.freed.Nodup

/-- Whether buffers are allocated, and no exchange has them. -/
def own (buffers : List Nat) : Bool :=
  decide (buffers.Nodup ∧ ∀ buffer ∈ buffers, (system.heap.data buffer).isSome = true ∧
    ∀ exchange ∈ system.carriers, buffer ∉ exchange.buffers)

/-- Whether an exchange can be sent: it carries what the exchanges with its reference carry, or what
no exchange has. -/
def mayShare (exchange : Exchange Handler) : Bool :=
  match exchange.sharedRef with
  | none => system.own exchange.buffers
  | some word =>
      exchange.hasData &&
        decide (0 < refs system.carriers word ∧
          ∀ other ∈ system.carriers, other.sharedRef = some word →
            other.buffers = exchange.buffers)

end System

/-- What it takes: callers send their own data, or data that goes with a reference that is still
held; an answer with data is of a request that nobody else has; and a message that cannot be put is
not the last one with data that was put before. -/
def careful (system : System Handler) : Action Handler → Bool
  | .sendRequest identity request handler current =>
      system.mayShare (plainRequest identity request handler current)
  | .sendSharedRequest identity request token handler _ =>
      system.mayShare (sharedRequest identity request token handler)
  | .sendSharedDirectRequest id request response ref handler _ =>
      system.mayShare (sharedDirectRequest id request response ref handler)
  | .put place room =>
      (system.sending[place]?).all fun sent =>
        (room && system.accepts sent.1) ||
          (sent.2.sharedRef.any fun word => 1 < refs system.carriers word) ||
            system.handed.all fun one => one.2 ∉ sent.2.buffers
  | .sendResponse place response _ =>
      match system.tasks[place]? with
      | some ⟨_, some exchange, false⟩ =>
          response.buffers.isEmpty || (system.own response.buffers &&
            exchange.sharedRef.all fun word => refs system.carriers word = 1)
      | _ => true
  | _ => true

/-! ### What steps do to what is carried -/

section Carriers

variable {system : System Handler} {place : Nat} {task : Task Handler}

theorem carriers_split (found : system.tasks[place]? = some task) :
    ∃ rest, system.carriers = (task.exchanges : Multiset (Exchange Handler)) + rest ∧
      ∀ next : Task Handler, (system.setTask place next).carriers =
        (next.exchanges : Multiset (Exchange Handler)) + rest := by
  have changed (next : Task Handler) := sum_map_set found next
    fun task => (task.exchanges : Multiset (Exchange Handler))
  have idle : _ = _ + (([] : List (Exchange Handler)) : Multiset (Exchange Handler)) :=
    changed ⟨[], none, false⟩
  rw [Multiset.coe_nil, add_zero] at idle
  refine ⟨(system.setTask place ⟨[], none, false⟩).carriers, ?_, fun next => ?_⟩
  · rw [System.carriers, System.carriers, ← idle, System.setTask]
    rw [add_assoc, add_left_comm]
  · have next_ := changed next
    rw [← idle, add_right_comm] at next_
    have here := add_right_cancel next_
    rw [System.carriers, System.carriers, System.setTask, System.setTask]
    rw [here, add_right_comm, add_comm]

theorem carriers_erase {sent : Option Nat × Exchange Handler}
    (found : system.sending[place]? = some sent) : system.carriers =
      sent.2 ::ₘ System.carriers { system with sending := system.sending.eraseIdx place } := by
  obtain ⟨bound, rfl⟩ := List.getElem?_eq_some_iff.mp found
  have split := (getElem_cons_eraseIdx_perm bound).map Prod.snd
  rw [map_cons] at split
  rw [System.carriers, System.carriers, ← Multiset.coe_eq_coe.mpr split, ← Multiset.cons_coe,
    Multiset.add_cons]

theorem carriers_send (queueId : Option Nat) (exchange : Exchange Handler) :
    System.carriers { system with sending := system.sending ++ [(queueId, exchange)] } =
      exchange ::ₘ system.carriers := by
  rw [System.carriers, System.carriers, map_append, ← Multiset.coe_add, ← add_assoc,
    map_cons, map_nil, Multiset.coe_singleton, add_comm, Multiset.singleton_add]

theorem carriers_queuePut {queueId : Option Nat} (accepts : system.accepts queueId = true)
    (exchange : Exchange Handler) :
    (system.queuePut queueId exchange).carriers = exchange ::ₘ system.carriers := by
  cases queueId with
  | none => cases accepts
  | some queue =>
    have there : queue < system.tasks.length := of_decide_eq_true accepts
    have changed := sum_map_modify (List.getElem?_eq_getElem there)
      (fun task => { task with queue := task.queue ++ [exchange] })
      fun task => (task.exchanges : Multiset (Exchange Handler))
    have added (task : Task Handler) :
        (Task.exchanges { task with queue := task.queue ++ [exchange] } :
          Multiset (Exchange Handler)) = exchange ::ₘ task.exchanges := by
      rw [Multiset.cons_coe, Multiset.coe_eq_coe, Task.exchanges, append_assoc]
      exact perm_middle
    rw [added, Multiset.add_cons, ← Multiset.cons_add] at changed
    rw [System.carriers, System.carriers, System.queuePut]
    rw [add_right_cancel changed, Multiset.cons_add]

end Carriers

section Tasks

variable (queue : List (Exchange Handler)) (exchange : Exchange Handler)

theorem waiting_exchanges :
    (Task.exchanges ⟨queue, none, false⟩ : Multiset (Exchange Handler)) = queue :=
  congrArg _ (append_nil queue)

theorem processing_exchanges :
    (Task.exchanges ⟨queue, some exchange, false⟩ : Multiset (Exchange Handler)) =
      exchange ::ₘ queue := by
  rw [Multiset.cons_coe, Multiset.coe_eq_coe]
  exact perm_append_singleton exchange queue

theorem responding_exchanges :
    (Task.exchanges ⟨queue, some exchange, true⟩ : Multiset (Exchange Handler)) =
      exchange ::ₘ exchange ::ₘ queue := by
  rw [Multiset.cons_coe, Multiset.cons_coe, Multiset.coe_eq_coe]
  exact perm_append_comm

end Tasks

/-! ### Sending -/

section Balance

variable {heap next : Heap} {carriers : Multiset (Exchange Handler)}
  {exchange sent : Exchange Handler} {handed : List (Option Nat × Nat)}

theorem balanced_send (balanced : Balanced heap carriers handed)
    (noResponse : exchange.type = .msgCon → exchange.response = ⟨none, 0⟩)
    (own : exchange.sharedRef = none → exchange.buffers.Nodup ∧
      ∀ buffer ∈ exchange.buffers, (heap.data buffer).isSome = true ∧
        ∀ other ∈ carriers, buffer ∉ other.buffers)
    (shares : ∀ word, exchange.sharedRef = some word → exchange.hasData = true ∧
      0 < refs carriers word ∧
        ∀ other ∈ carriers, other.sharedRef = some word → other.buffers = exchange.buffers)
    {memory : Bool} (result : addReference heap exchange 0 memory = some (sent, next)) :
    Balanced next (sent ::ₘ carriers) handed := by
  have unshared (none_ : exchange.sharedRef = none) :
      Balanced heap (exchange ::ₘ carriers) handed := by
    obtain ⟨nodup, buffers⟩ := own none_
    exact balanced.join_unshared none_ (fun buffer carried => (buffers buffer carried).1) nodup
      noResponse fun buffer carried => (buffers buffer carried).2
  rw [addReference] at result
  split at result
  · next empty =>
    obtain ⟨rfl, rfl⟩ := Prod.mk.inj (some_inj.mp result)
    refine unshared (eq_none_iff_forall_ne_some.mpr fun word shared => ?_)
    rw [(shares word shared).1] at empty
    cases empty
  · next data =>
    have data := (hasData_iff exchange).mp (eq_true_of_ne_false data)
    split at result
    · next word shared =>
      obtain ⟨rfl, rfl⟩ := Prod.mk.inj (some_inj.mp result)
      obtain ⟨_, carried, same⟩ := shares word shared
      obtain ⟨other, member, other_⟩ := refs_pos_iff.mp carried
      exact balanced.join_shared shared data noResponse member other_ (same other member other_)
    · next none_ =>
      obtain ⟨_, result⟩ := ite_none_right_eq_some.mp result
      obtain ⟨rfl, rfl⟩ := Prod.mk.inj (some_inj.mp result)
      exact (unshared none_).retag none_ data

theorem freeReference_of_no_memory {initRef : Nat} {memory : Bool}
    (result : addReference heap exchange initRef memory = none) :
    freeReference heap exchange = (true, exchange, heap) := by
  rw [addReference] at result
  split at result
  · cases result
  split at result
  · cases result
  · next none_ =>
    unfold freeReference
    rw [none_]

theorem giveBack_of_mem (balanced : Balanced heap (exchange ::ₘ carriers) handed)
    (member : exchange ∈ carriers) : (freeReference heap exchange).2.1 = exchange ∧
      Balanced (freeReference heap exchange).2.2 carriers handed := by
  rcases balanced.consistent exchange carriers rfl exchange member with
    ⟨word, shared, _⟩ | ⟨apart, disjoint⟩
  · have more : 0 < refs carriers word := refs_pos_iff.mpr ⟨exchange, member, shared⟩
    have counted : heap.word word = some (refs carriers word + 1) := by
      rw [balanced.counted, refs_cons, if_pos shared, wordOf_succ]
    refine ⟨?_, balanced.giveBack (Or.inl ⟨word, shared, more⟩)⟩
    rw [freeReference_of_shared shared counted more]
  · have none_ : exchange.sharedRef = none :=
      eq_none_iff_forall_ne_some.mpr fun word shared => apart word shared shared
    refine ⟨?_, balanced.giveBack (Or.inr fun one _ here => disjoint one.2 here here)⟩
    unfold freeReference
    rw [none_]

theorem mallocWord_twice (heap : Heap) :
    (heap.mallocWord 1).2.modifyWord heap.next (· + 1) = (heap.mallocWord 2).2 := by
  rw [Heap.modifyWord, Heap.mallocWord_word, if_pos rfl, map_some, Heap.mallocWord,
    Heap.mallocWord]
  rw [Function.update_idem]

theorem balanced_duplicate (balanced : Balanced heap (exchange ::ₘ carriers) handed)
    (answer : exchange.type ≠ .msgCon) {memory : Bool}
    (result : addReference heap exchange 1 memory = some (sent, next)) :
    Balanced next (sent ::ₘ sent ::ₘ carriers) handed := by
  have member := Multiset.mem_cons_self exchange carriers
  rw [addReference] at result
  split at result
  · next empty =>
    obtain ⟨rfl, rfl⟩ := Prod.mk.inj (some_inj.mp result)
    have none_ : exchange.buffers = [] := by
      by_contra some_
      rw [(hasData_iff exchange).mpr some_] at empty
      cases empty
    refine balanced.join_unshared ?_ (by rw [none_]; exact forall_mem_nil _)
      (by rw [none_]; exact nodup_nil) (fun con => absurd con answer)
      (by rw [none_]; exact forall_mem_nil _)
    by_contra shared
    exact balanced.hasData exchange member shared none_
  · next data =>
    have data := (hasData_iff exchange).mp (eq_true_of_ne_false data)
    split at result
    · next word shared =>
      obtain ⟨rfl, rfl⟩ := Prod.mk.inj (some_inj.mp result)
      exact balanced.join_shared shared data (fun con => absurd con answer) member shared rfl
    next none_ =>
    obtain ⟨_, result⟩ := ite_none_right_eq_some.mp result
    obtain ⟨rfl, rfl⟩ := Prod.mk.inj (some_inj.mp result)
    have once := balanced.retag none_ data
    have twice := @Balanced.join_shared _ _ _ { exchange with sharedRef := some heap.next } _ once
      heap.next rfl data (fun con => absurd con answer) _ (Multiset.mem_cons_self _ _) rfl rfl
    rwa [mallocWord_twice] at twice

end Balance

/-! ### The steps -/

section Steps

variable {system next : System Handler} {place : Nat}

def Sound (system : System Handler) : Prop :=
  Balanced system.heap system.carriers system.handed

theorem own_iff {buffers : List Nat} : system.own buffers = true ↔
    buffers.Nodup ∧ ∀ buffer ∈ buffers, (system.heap.data buffer).isSome = true ∧
      ∀ exchange ∈ system.carriers, buffer ∉ exchange.buffers :=
  decide_eq_true_iff

section

variable (sound : Sound system)
include sound

theorem Sound.startSend {exchange : Exchange Handler}
    (may : system.mayShare exchange = true)
    (noResponse : exchange.type = .msgCon → exchange.response = ⟨none, 0⟩)
    (queueId : Option Nat) (memory : Bool) : Sound (system.startSend queueId exchange memory) := by
  have own (none_ : exchange.sharedRef = none) := by
    rw [System.mayShare, none_] at may
    exact own_iff.mp may
  have shares (word : Nat) (shared : exchange.sharedRef = some word) :
      exchange.hasData = true ∧ 0 < refs system.carriers word ∧
        ∀ other ∈ system.carriers, other.sharedRef = some word →
          other.buffers = exchange.buffers := by
    rw [System.mayShare, shared] at may
    obtain ⟨data, rest⟩ := Bool.and_eq_true_iff.mp may
    exact ⟨data, of_decide_eq_true rest⟩
  rw [System.startSend]
  cases result : addReference system.heap exchange 0 memory with
  | none =>
    rw [freeReference_of_no_memory result]
    exact sound
  | some sent =>
    have balanced := balanced_send sound noResponse own shares result
    rw [← carriers_send queueId] at balanced
    exact balanced

theorem Sound.receive {exchange : Exchange Handler}
    {queue : List (Exchange Handler)}
    (found : system.tasks[place]? = some ⟨exchange :: queue, none, false⟩) :
    Sound (system.setTask place ⟨queue, some exchange, false⟩) := by
  obtain ⟨rest, split, set_⟩ := carriers_split found
  rw [waiting_exchanges, ← Multiset.cons_coe, ← processing_exchanges, ← set_] at split
  have balanced : Balanced system.heap system.carriers system.handed := sound
  rw [split] at balanced
  exact balanced

theorem Sound.freeMsg {exchange : Exchange Handler}
    {queue : List (Exchange Handler)}
    (found : system.tasks[place]? = some ⟨queue, some exchange, false⟩) :
    Sound ((system.setHeap (samgrFreeMsg system.heap exchange)).setTask place
      ⟨queue, none, false⟩) := by
  obtain ⟨rest, split, set_⟩ := carriers_split found
  have balanced : Balanced system.heap system.carriers system.handed := sound
  rw [split, processing_exchanges, Multiset.cons_add] at balanced
  have left := balanced.samgrFreeMsg
  rw [← waiting_exchanges, ← set_] at left
  exact left

theorem Sound.put {sent : Option Nat × Exchange Handler}
    (found : system.sending[place]? = some sent) (room : Bool)
    (kept : (room && system.accepts sent.1) = false →
      (∃ word, sent.2.sharedRef = some word ∧ 1 < refs system.carriers word) ∨
        ∀ one ∈ system.handed, one.2 ∉ sent.2.buffers) :
    Sound (if (room && system.accepts sent.1) = true then
        System.queuePut { system with sending := system.sending.eraseIdx place } sent.1 sent.2
      else System.setHeap { system with sending := system.sending.eraseIdx place }
        (freeReference system.heap sent.2).2.2) := by
  have split := carriers_erase found
  have balanced : Balanced system.heap system.carriers system.handed := sound
  rw [split] at balanced
  split
  · next accepted =>
    have accepts : System.accepts { system with sending := system.sending.eraseIdx place } sent.1 =
        true := (Bool.and_eq_true_iff.mp accepted).2
    have above := balanced.handOver (Multiset.mem_cons_self _ _)
    rw [← carriers_queuePut accepts] at above
    exact above
  · next failed =>
    refine balanced.giveBack ((kept (eq_false_of_ne_true failed)).imp_left ?_)
    rintro ⟨word, shared, more⟩
    rw [split, refs_cons, if_pos shared] at more
    exact ⟨word, shared, Nat.lt_of_succ_lt_succ more⟩

theorem Sound.putResponse {exchange : Exchange Handler}
    {queue : List (Exchange Handler)}
    (found : system.tasks[place]? = some ⟨queue, some exchange, true⟩) (room : Bool) :
    Sound (if (room && system.accepts exchange.id.queueId) = true then
        (system.setTask place ⟨queue, some exchange, false⟩).queuePut exchange.id.queueId exchange
      else (system.setHeap (freeReference system.heap exchange).2.2).setTask place
        ⟨queue, some (freeReference system.heap exchange).2.1, false⟩) := by
  obtain ⟨rest, split, set_⟩ := carriers_split found
  have balanced : Balanced system.heap system.carriers system.handed := sound
  rw [split, responding_exchanges, Multiset.cons_add] at balanced
  rw [← processing_exchanges, ← set_] at balanced
  split
  · next accepted =>
    have accepts : (system.setTask place ⟨queue, some exchange, false⟩).accepts
        exchange.id.queueId = true := by
      have there := (Bool.and_eq_true_iff.mp accepted).2
      rw [System.accepts] at there ⊢
      rwa [System.setTask, length_set]
    have above := balanced.handOver (Multiset.mem_cons_self _ _)
    rw [← carriers_queuePut accepts] at above
    exact above
  · have member : exchange ∈ (system.setTask place ⟨queue, some exchange, false⟩).carriers := by
      rw [set_, processing_exchanges, Multiset.cons_add]
      exact Multiset.mem_cons_self _ _
    obtain ⟨same, given⟩ := giveBack_of_mem balanced member
    rw [same]
    exact given

theorem Sound.sendResponse {exchange : Exchange Handler}
    {queue : List (Exchange Handler)} {response : Response}
    (found : system.tasks[place]? = some ⟨queue, some exchange, false⟩)
    (con : exchange.type = .msgCon)
    (may : (response.buffers.isEmpty || (system.own response.buffers &&
      exchange.sharedRef.all fun word => refs system.carriers word = 1)) = true) :
    Balanced system.heap
      ((system.setTask place ⟨queue, some (answerOf exchange response), false⟩).carriers)
      (system.handed ++ response.buffers.map fun buffer => (none, buffer)) := by
  obtain ⟨rest, split, set_⟩ := carriers_split found
  have balanced : Balanced system.heap system.carriers system.handed := sound
  have carriers : system.carriers = exchange ::ₘ (↑queue + rest) := by
    rw [split, processing_exchanges, Multiset.cons_add]
  rw [carriers] at balanced
  rw [set_, processing_exchanges, Multiset.cons_add]
  rcases Bool.or_eq_true_iff.mp may with empty | data
  · have none_ := List.isEmpty_iff.mp empty
    refine balanced.answer con ?_ ?_ ?_ fun some_ => absurd none_ some_
    · rw [none_]
      exact forall_mem_nil _
    · rw [none_]
      exact nodup_nil
    · rw [none_]
      exact forall_mem_nil _
  · obtain ⟨own, last⟩ := Bool.and_eq_true_iff.mp data
    obtain ⟨nodup, buffers⟩ := own_iff.mp own
    refine balanced.answer con (fun buffer carried => (buffers buffer carried).1) nodup
      (fun buffer carried other member => (buffers buffer carried).2 other (carriers ▸ member))
      fun _ word shared => ?_
    rw [shared] at last
    have one := of_decide_eq_true last
    rw [carriers, refs_cons, if_pos shared] at one
    exact Nat.succ.inj one

end

theorem Sound.startResponse {before exchange : Exchange Handler} {queue : List (Exchange Handler)}
    (found : system.tasks[place]? = some ⟨queue, some before, false⟩)
    (sound : Sound (system.setTask place ⟨queue, some exchange, false⟩))
    (answer : exchange.type ≠ .msgCon) (memory : Bool) :
    Sound (system.startResponse place queue exchange memory) := by
  obtain ⟨rest, _, set_⟩ := carriers_split found
  have balanced : Balanced system.heap
      (system.setTask place ⟨queue, some exchange, false⟩).carriers system.handed := sound
  rw [set_, processing_exchanges, Multiset.cons_add] at balanced
  rw [System.startResponse]
  cases result : addReference system.heap exchange 1 memory with
  | none =>
    rw [freeReference_of_no_memory result]
    exact sound
  | some sent =>
    have both := balanced_duplicate balanced answer result
    rw [← Multiset.cons_add, ← Multiset.cons_add, ← responding_exchanges, ← set_] at both
    exact both

theorem Sound.step {action : Action Handler} (sound : Sound system)
    (careful_ : careful system action = true) (result : system.step action = some next) :
    Sound next := by
  cases action with
  | alloc bytes =>
    obtain rfl := some_inj.mp result
    exact Balanced.mallocData sound bytes
  | sendRequest identity request handler current =>
    obtain rfl := some_inj.mp result
    obtain ⟨nodup, buffers⟩ := own_iff.mp careful_
    have joined := @Balanced.join_unshared _ _ _ (plainRequest identity request handler current) _
      sound rfl
      (fun buffer carried => (buffers buffer carried).1) nodup (fun _ => rfl)
      fun buffer carried => (buffers buffer carried).2
    rw [← carriers_send identity.queueId] at joined
    exact joined
  | sendSharedRequest identity request token handler memory =>
    obtain rfl := some_inj.mp result
    exact sound.startSend careful_ (fun _ => rfl) _ _
  | sendSharedDirectRequest id request response ref handler memory =>
    obtain rfl := some_inj.mp result
    exact sound.startSend careful_ (fun con => ExchangeType.noConfusion con) _ _
  | put place room =>
    obtain ⟨sent, found, rfl⟩ := map_eq_some_iff.mp result
    refine sound.put found room fun failed => ?_
    rw [careful, found, all_some, failed, Bool.or_eq_true_iff] at careful_
    refine careful_.imp (fun more => ?_) fun none_ one member => ?_
    · obtain ⟨word, shared, more⟩ := any_eq_true _ _ |>.mp more
      exact ⟨word, shared, of_decide_eq_true more⟩
    · exact of_decide_eq_true (all_eq_true.mp none_ one member)
  | receive place =>
    rw [System.step] at result
    split at result
    · next found =>
      obtain rfl := some_inj.mp result
      exact sound.receive found
    · cases result
  | sendResponse place response memory =>
    rw [System.step] at result
    split at result
    · next queue exchange found =>
      obtain ⟨⟨con, _⟩, result⟩ := ite_none_right_eq_some.mp result
      rw [careful, found] at careful_
      have answered := sound.sendResponse found con careful_
      split at result
      · obtain rfl := some_inj.mp result
        exact answered
      obtain rfl := some_inj.mp result
      exact @Sound.startResponse _ { system with
        handed := system.handed ++ response.buffers.map fun buffer => (none, buffer) } _ _ _ _
        found answered (fun con => ExchangeType.noConfusion con) memory
    · cases result
  | putResponse place room =>
    rw [System.step] at result
    split at result
    · next queue exchange found =>
      rw [← apply_ite some] at result
      obtain rfl := some_inj.mp result
      exact sound.putResponse found room
    · cases result
  | freeMsg place =>
    rw [System.step] at result
    split at result
    · next queue exchange found =>
      obtain rfl := some_inj.mp result
      exact sound.freeMsg found
    · cases result

end Steps

/-! ### Whole runs -/

/-- Nothing is allocated and nothing is sent. -/
structure Initial (system : System Handler) : Prop where
  word : ∀ address, system.heap.word address = none
  data : ∀ address, system.heap.data address = none
  freed : system.heap.freed = []
  tasks : ∀ task ∈ system.tasks, task.queue = [] ∧ task.current = none
  sending : system.sending = []
  handed : system.handed = []

section Runs

variable {system : System Handler}

theorem Initial.carriers (initial : Initial system) : system.carriers = 0 := by
  have empty : (system.tasks.map fun task =>
      (task.exchanges : Multiset (Exchange Handler))).sum = 0 := by
    refine sum_eq_zero fun exchanges member => ?_
    obtain ⟨task, task_, rfl⟩ := mem_map.mp member
    obtain ⟨queue, current⟩ := initial.tasks task task_
    rw [Task.exchanges, queue, current]
    rfl
  rw [System.carriers, empty, initial.sending]
  rfl

theorem Initial.sound (initial : Initial system) : Sound system := by
  rw [Sound, initial.carriers, initial.handed]
  refine ⟨⟨?_, ?_, fun address _ => ⟨initial.word address, initial.data address⟩,
    fun address _ => initial.word address⟩, initial.word, ?_, ?_, ?_, ?_, ?_,
    forall_mem_nil _⟩
  · rw [initial.freed]
    exact nodup_nil
  · rw [initial.freed]
    exact forall_mem_nil _
  · exact fun exchange member => absurd member (Multiset.notMem_zero exchange)
  · exact fun exchange member => absurd member (Multiset.notMem_zero exchange)
  · exact fun exchange member => absurd member (Multiset.notMem_zero exchange)
  · exact fun exchange member => absurd member (Multiset.notMem_zero exchange)
  · exact fun exchange rest split => absurd split (Multiset.zero_ne_cons)

theorem Sound.owned (sound : Sound system) : system.Owned := by
  refine ⟨fun word count counted => ?_, fun exchange member word shared =>
    sound.word_isSome_iff.mpr ⟨exchange, member, shared⟩, sound.allocated,
    fun one handed left => ?_, sound.proper.once⟩
  · rw [sound.counted] at counted
    exact (some_inj.mp (ite_none_left_eq_some.mp counted).2).symm
  · refine (sound.settled one handed).resolve_left ?_
    rintro ⟨exchange, member, carried, _⟩
    exact left exchange member carried

/-- References count the exchanges, and data is freed once, with its reference, in every run in
which each send and each answer meets the condition. -/
theorem owned_of_reachable
    (reached : Reachable System.step (fun system action => careful system action = true) Initial
      system) : system.Owned := by
  have sound : Sound system :=
    @Reachable.invariant _ _ _ _ _ system Sound (fun _ initial => initial.sound)
      (fun _ _ _ _ sound careful_ result => sound.step careful_ result) reached
  exact sound.owned

end Runs

/-! ### Runs of two tasks -/

def twoTasks : System Unit :=
  ⟨⟨0, fun _ => none, fun _ => none, []⟩, [⟨[], none, false⟩, ⟨[], none, false⟩], [], []⟩

theorem initial_twoTasks : Initial twoTasks := by
  refine ⟨fun _ => rfl, fun _ => rfl, rfl, fun task member => ?_, rfl, rfl⟩
  rcases mem_cons.mp member with rfl | member
  · exact ⟨rfl, rfl⟩
  · obtain rfl := mem_singleton.mp member
    exact ⟨rfl, rfl⟩

def served (task : Nat) : Identity :=
  ⟨0, -1, some task⟩

def requestOf (data : Option Nat) : Request :=
  ⟨0, if data.isSome then 4 else 0, data, 0⟩

/-- Data is shared by both tasks, and freed by the second one. -/
def shareData : List (Action Unit) :=
  [.alloc [1, 2, 3, 4], .sendSharedRequest (served 0) (requestOf (some 0)) none none true,
    .put 0 true, .sendSharedRequest (served 1) (requestOf (some 0)) (some 1) none true, .put 0 true,
    .receive 0, .freeMsg 0, .receive 1, .freeMsg 1]

/-- The second task answers a request of the first one, and does not free the data first. -/
def answerData : List (Action Unit) :=
  [.alloc [5, 6, 7, 8], .sendRequest (served 1) (requestOf (some 2)) (some ()) (some 0),
    .put 0 true, .receive 1, .alloc [9], .sendResponse 1 ⟨some 3, 1⟩ true, .putResponse 1 true,
    .freeMsg 1, .receive 0, .freeMsg 0]

theorem owned_of_reachable_sample : ∃ system,
    execute System.step careful twoTasks (shareData ++ answerData) = some system ∧
      system.heap.freed = [3, 2, 4, 0, 1] ∧ system.Owned := by
  have runs : (execute System.step careful twoTasks (shareData ++ answerData)).map
      (fun system => system.heap.freed) = some [3, 2, 4, 0, 1] := by
    decide
  obtain ⟨system, result, freed⟩ := map_eq_some_iff.mp runs
  exact ⟨system, result, freed, owned_of_reachable
    (.of_execute (fun _ _ meets => meets) _ (.start initial_twoTasks) result)⟩

/-- A request without data passes the reference of another one. -/
def passReference : List (Action Unit) :=
  [.alloc [1, 2, 3, 4], .sendSharedRequest (served 0) (requestOf (some 0)) none none true,
    .put 0 true, .sendSharedRequest (served 1) (requestOf none) (some 1) none true, .put 0 true]

/-- Two exchanges carry the reference, and it is counted once. -/
theorem miscounted : ∃ system,
    execute System.step (fun _ _ => true) twoTasks passReference = some system ∧
      Reachable System.step (fun _ _ => True) Initial system ∧
        system.heap.word 1 = some 1 ∧ refs system.carriers 1 = 2 ∧ ¬system.Owned := by
  have runs : (execute System.step (fun _ _ => true) twoTasks passReference).map
      (fun system => (system.heap.word 1, refs system.carriers 1)) = some (some 1, 2) := by
    decide
  obtain ⟨system, result, state⟩ := map_eq_some_iff.mp runs
  obtain ⟨word, carried⟩ := Prod.mk.inj state
  refine ⟨system, result, .of_execute (fun _ _ _ => trivial) _ (.start initial_twoTasks) result,
    word, carried, fun owned => ?_⟩
  have counted := owned.counted 1 1 word
  rw [carried] at counted
  exact absurd counted (by decide)

end TowerSafe.MessageRun
