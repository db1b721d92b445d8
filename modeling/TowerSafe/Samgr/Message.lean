/-
This file embeds the messages of the service manager: exchanges, the heap that their data and their
reference words live in, and the functions that take and give back references.
-/

import Mathlib.Data.List.Basic
import Mathlib.Logic.Function.Basic

namespace TowerSafe.Message

/-! ### Exchanges -/

structure Identity where
  serviceId : Int
  featureId : Int
  queueId : Option Nat
  deriving DecidableEq

/-- `Request`. Data is an address. -/
structure Request where
  msgId : Int
  len : Int
  data : Option Nat
  msgValue : BitVec 32
  deriving DecidableEq

/-- `Response`, without the reply that no function here looks at. -/
structure Response where
  data : Option Nat
  len : Int
  deriving DecidableEq

inductive ExchangeType where
  | msgExit
  | msgNon
  | msgCon
  | msgAck
  | msgSync
  | msgDirect
  deriving DecidableEq

/-- `Exchange`. Handlers are of any type. -/
structure Exchange (Handler : Type) where
  id : Identity
  request : Request
  response : Response
  type : ExchangeType
  handler : Option Handler
  sharedRef : Option Nat
  deriving DecidableEq

def Request.hasData (request : Request) : Bool :=
  request.data.isSome && decide (0 < request.len)

def Response.hasData (response : Response) : Bool :=
  response.data.isSome && decide (0 < response.len)

/-- Whether an exchange has something to share. -/
def Exchange.hasData {Handler : Type} (exchange : Exchange Handler) : Bool :=
  exchange.request.hasData || exchange.response.hasData

/-! ### The heap -/

/-- The reference words and the data that are allocated, and the addresses that were freed, latest
first. -/
structure Heap where
  next : Nat
  word : Nat → Option Nat
  data : Nat → Option (List (BitVec 8))
  freed : List Nat

namespace Heap

variable (heap : Heap)

def mallocData (bytes : List (BitVec 8)) : Nat × Heap :=
  (heap.next,
    { heap with next := heap.next + 1, data := Function.update heap.data heap.next (some bytes) })

def mallocWord (count : Nat) : Nat × Heap :=
  (heap.next,
    { heap with next := heap.next + 1, word := Function.update heap.word heap.next (some count) })

/-- Change a reference word; one that is not allocated is not there to be changed. -/
def modifyWord (address : Nat) (change : Nat → Nat) : Heap :=
  { heap with word := Function.update heap.word address ((heap.word address).map change) }

def free : Option Nat → Heap
  | none => heap
  | some address =>
      { heap with
        word := Function.update heap.word address none
        data := Function.update heap.data address none
        freed := address :: heap.freed }

end Heap

/-! ### References -/

section References

variable {Handler : Type} (heap : Heap) (exchange : Exchange Handler)

/-- `SharedSend` up to `QUEUE_Put`: what is put, unless there is no memory for the word. -/
def addReference (initRef : Nat) (memory : Bool) : Option (Exchange Handler × Heap) :=
  if exchange.hasData = false then some (exchange, heap)
  else
    match exchange.sharedRef with
    | some sharedRef => some (exchange, heap.modifyWord sharedRef (· + 1))
    | none =>
        if memory then
          let word := heap.mallocWord (initRef + 1)
          some ({ exchange with sharedRef := some word.1 }, word.2)
        else none

/-- `FreeReference`: whether the data is to be freed, with the exchange and the heap after it. -/
def freeReference : Bool × Exchange Handler × Heap :=
  match exchange.sharedRef with
  | none => (true, exchange, heap)
  | some sharedRef =>
      let heap := heap.modifyWord sharedRef (· - 1)
      if 0 < (heap.word sharedRef).getD 0 then (false, exchange, heap)
      else (true, { exchange with sharedRef := none }, heap.free (some sharedRef))

def samgrFreeMsg : Heap :=
  let freed := freeReference heap exchange
  if freed.1 then
    let heap := if 0 < exchange.request.len then freed.2.2.free exchange.request.data else freed.2.2
    if 0 < exchange.response.len then heap.free exchange.response.data else heap
  else freed.2.2

/-- What a send comes to: whether there is memory for a reference word, and whether the queue has
room. -/
structure Outcome where
  memory : Bool
  room : Bool
  deriving DecidableEq

/-- What a send leaves: its success, the reference word that is returned, the heap, and what was
put. -/
structure Sent (Handler : Type) where
  success : Bool
  sharedRef : Option Nat
  heap : Heap
  put : Option (Exchange Handler)

/-- A failed send gives its reference back. -/
def giveBack : Sent Handler :=
  let freed := freeReference heap exchange
  ⟨false, freed.2.1.sharedRef, freed.2.2, none⟩

end References

/-! ### Lemmas -/

section Lemmas

variable {Handler : Type} {heap : Heap} {exchange : Exchange Handler}

theorem samgrFreeMsg_of_shared {sharedRef count : Nat} (shared : exchange.sharedRef = some sharedRef)
    (counted : heap.word sharedRef = some (count + 1)) (more : 0 < count) :
    samgrFreeMsg heap exchange = heap.modifyWord sharedRef (· - 1) := by
  have left : ((heap.modifyWord sharedRef (· - 1)).word sharedRef).getD 0 = count := by
    simp [Heap.modifyWord, counted]
  unfold samgrFreeMsg freeReference
  rw [shared]
  dsimp only
  rw [left, if_pos more]
  rfl

end Lemmas

end TowerSafe.Message
