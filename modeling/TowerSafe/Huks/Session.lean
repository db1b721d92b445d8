/-
This file embeds the session table of `hks_session_manager.c`, as the services of
`hks_client_service.c` use it. Each function holds the lock of the list while it is at it, and is
one step; an operation that a query gives has a user until that one has finished with it. The table
is right in every state exactly as long as the engine gives new handles, processes delete operations
of their own, and nobody uses what is deleted.
-/

import TowerSafe.Library.Bytes
import TowerSafe.Library.Transition

namespace TowerSafe.Session

open Library List Option

/-! ### The table -/

def maxOperationsCount : Nat := 15

structure ProcessInfo where
  userId : Bytes
  processName : Bytes
  accessTokenId : BitVec 64
  deriving DecidableEq

/-- `struct HksOperation`, with its address. -/
structure Operation where
  address : Nat
  processInfo : ProcessInfo
  handle : BitVec 64
  abortable : Bool
  deriving DecidableEq

/-- `g_operationList`, the oldest first, and `g_operationCount`. -/
structure Table where
  operations : List Operation
  count : BitVec 32
  deriving DecidableEq

/-- The return values other than `HKS_SUCCESS`. -/
inductive Failure where
  | mallocFail
  | invalidArgument
  | insufficientMemory
  | sessionReachedLimit
  deriving DecidableEq

def isSameProcessName (processInfo : ProcessInfo) (operation : Operation) : Bool :=
  operation.processInfo.processName == processInfo.processName

def isSameUserId (processInfo : ProcessInfo) (operation : Operation) : Bool :=
  operation.processInfo.userId == processInfo.userId

/-- `FreeOperation`, and the count one less. -/
def Table.freeOperation (table : Table) (operation : Operation) : Table :=
  ⟨table.operations.erase operation, table.count - 1⟩

/-- `DeleteFirstAbortableOperation`: the table without it, if there is one. -/
def Table.deleteFirstAbortableOperation (table : Table) : Option Table :=
  (table.operations.find? Operation.abortable).map table.freeOperation

/-- `AddNodeAtDoubleListTail`, and the count one more. -/
def Table.addAtTail (table : Table) (operation : Operation) : Table :=
  ⟨table.operations ++ [operation], table.count + 1⟩

def Table.addOperation (table : Table) (operation : Operation) : Table × Option Failure :=
  if maxOperationsCount ≤ table.count.toNat then
    match table.deleteFirstAbortableOperation with
    | none => (table, some .sessionReachedLimit)
    | some table => (table.addAtTail operation, none)
  else (table.addAtTail operation, none)

def constructOperationHandle (operationHandle : Bytes) : Except Failure (BitVec 64) :=
  if operationHandle.length < 8 then .error .invalidArgument
  else if operationHandle.length > 8 then .error .insufficientMemory
  else .ok (.ofNat 64 (Bytes.toNat operationHandle))

/-- The memory for an operation, at an address that is not in use, and for its process. -/
structure CreateEvents where
  operation : Option Nat
  userId : Bool
  processName : Bool
  deriving DecidableEq

def Table.createOperation (table : Table) (processInfo : ProcessInfo) (operationHandle : Bytes)
    (abortable : Bool) (events : CreateEvents) : Table × Option Failure :=
  match events.operation with
  | none => (table, some .mallocFail)
  | some address =>
      if (events.userId && events.processName) = false then (table, some .mallocFail)
      else
        match constructOperationHandle operationHandle with
        | .error failure => (table, some failure)
        | .ok handle => table.addOperation ⟨address, processInfo, handle, abortable⟩

def Table.queryOperation (table : Table) (processInfo : ProcessInfo) (operationHandle : Bytes) :
    Option Operation :=
  match constructOperationHandle operationHandle with
  | .error _ => none
  | .ok handle =>
      table.operations.find? fun operation =>
        operation.handle == handle && isSameProcessName processInfo operation &&
          isSameUserId processInfo operation

/-- What `DeleteOperation` finds: the first operation with the handle, whoever it belongs to. -/
def Table.findHandle (table : Table) (operationHandle : Bytes) : Option Operation :=
  match constructOperationHandle operationHandle with
  | .error _ => none
  | .ok handle => table.operations.find? fun operation => operation.handle == handle

def Table.deleteOperation (table : Table) (operationHandle : Bytes) : Table :=
  match table.findHandle operationHandle with
  | none => table
  | some operation => table.freeOperation operation

/-- `isNeedDelete` in `DeleteSession`: without a process name, all the sessions of the user. -/
def isNeedDelete (processInfo : ProcessInfo) (operation : Operation) : Bool :=
  if processInfo.processName.length = 0 then isSameUserId processInfo operation
  else isSameUserId processInfo operation && isSameProcessName processInfo operation

/-- The loop of `DeleteSessionByProcessInfo`. -/
def deleteSessions (processInfo : ProcessInfo) : List Operation → Table → Table
  | [], table => table
  | operation :: rest, table =>
      deleteSessions processInfo rest
        (if isNeedDelete processInfo operation then table.freeOperation operation else table)

def Table.deleteSessionByProcessInfo (table : Table) (processInfo : ProcessInfo) : Table :=
  deleteSessions processInfo table.operations table

/-! ### Runs -/

/-- The table, the users of operations that a query gave, each with its operation, and for which
process an operation was found or removed, apart from the eviction. -/
structure State where
  table : Table
  users : List (Nat × Operation)
  log : List (ProcessInfo × Operation)
  deriving DecidableEq

/-- What a process does. -/
inductive Action where
  | create (caller : ProcessInfo) (operationHandle : Bytes) (abortable : Bool)
      (events : CreateEvents)
  | query (task : Nat) (caller : ProcessInfo) (operationHandle : Bytes)
  | finish (task : Nat) (operation : Operation)
  | delete (caller : ProcessInfo) (operationHandle : Bytes)
  | deleteByProcessInfo (caller : ProcessInfo)
  deriving DecidableEq

/-- Memory is given to an operation only where none is in use. -/
def State.gives (state : State) (events : CreateEvents) : Bool :=
  events.operation.all fun address =>
    state.table.operations.all fun operation => operation.address != address

def step (state : State) : Action → Option State
  | .create caller operationHandle abortable events =>
      if state.gives events then
        some { state with
          table := (state.table.createOperation caller operationHandle abortable events).1 }
      else none
  | .query task caller operationHandle =>
      match state.table.queryOperation caller operationHandle with
      | none => some state
      | some operation =>
          some { state with
            users := (task, operation) :: state.users
            log := (caller, operation) :: state.log }
  | .finish task operation =>
      if (task, operation) ∈ state.users then
        some { state with users := state.users.erase (task, operation) }
      else none
  | .delete caller operationHandle =>
      match state.table.findHandle operationHandle with
      | none => some { state with table := state.table.deleteOperation operationHandle }
      | some operation =>
          some { state with
            table := state.table.deleteOperation operationHandle
            log := (caller, operation) :: state.log }
  | .deleteByProcessInfo caller =>
      some { state with
        table := state.table.deleteSessionByProcessInfo caller
        log := (state.table.operations.filter (isNeedDelete caller)).map (Prod.mk caller) ++
          state.log }

def Initial (state : State) : Prop :=
  state = ⟨⟨[], 0⟩, [], []⟩

/-- The process created the operation. -/
def owns (caller : ProcessInfo) (operation : Operation) : Bool :=
  isSameUserId caller operation && isSameProcessName caller operation

/-- What is right in every state. -/
structure Correct (state : State) : Prop where
  counted : state.table.count.toNat = state.table.operations.length
  bounded : state.table.operations.length ≤ maxOperationsCount
  handles : (state.table.operations.map Operation.handle).Nodup
  owned : ∀ entry ∈ state.log, owns entry.1 entry.2 = true
  live : ∀ use ∈ state.users, use.2 ∈ state.table.operations

/-- The operation that is evicted for a new one. -/
def Table.evicted (table : Table) : Option Operation :=
  if maxOperationsCount ≤ table.count.toNat then table.operations.find? Operation.abortable
  else none

def State.unused (state : State) (operation : Operation) : Bool :=
  state.users.all fun use => use.2 != operation

/-- The new operation has a handle that no other has then, and what is evicted for it is not in
use. -/
def State.admits (state : State) (handle : BitVec 64) : Bool :=
  match state.table.evicted with
  | none => state.table.operations.all fun operation => operation.handle != handle
  | some evicted =>
      state.unused evicted &&
        (state.table.operations.erase evicted).all fun operation => operation.handle != handle

/-- What it takes: a creation that gets its memory and a place has a new handle and evicts nothing
that is in use; and who deletes an operation owns it, and nobody uses it. -/
def careful (state : State) : Action → Bool
  | .create _ operationHandle _ events =>
      match constructOperationHandle operationHandle with
      | .error _ => true
      | .ok handle =>
          !(events.operation.isSome && events.userId && events.processName) ||
            (decide (maxOperationsCount ≤ state.table.count.toNat) &&
              state.table.evicted.isNone) ||
            state.admits handle
  | .query _ _ _ => true
  | .finish _ _ => true
  | .delete caller operationHandle =>
      (state.table.findHandle operationHandle).all fun operation =>
        owns caller operation && state.unused operation
  | .deleteByProcessInfo caller =>
      state.table.operations.all fun operation =>
        !isNeedDelete caller operation || (owns caller operation && state.unused operation)

/-! ### The table is right -/

section Tables

variable {table : Table} {operation : Operation}

/-- What is right of a table. -/
structure Table.Right (table : Table) : Prop where
  counted : table.count.toNat = table.operations.length
  bounded : table.operations.length ≤ maxOperationsCount
  handles : (table.operations.map Operation.handle).Nodup

theorem Table.Right.freeOperation (right : table.Right) (member : operation ∈ table.operations) :
    (table.freeOperation operation).Right := by
  have length := length_erase_of_mem member
  have positive := length_pos_of_mem member
  have bounded := right.bounded
  refine ⟨?_, ?_, ?_⟩
  · have one : (1 : BitVec 32) ≤ table.count := by
      change 1 ≤ table.count.toNat
      rw [right.counted]
      exact positive
    rw [Table.freeOperation, BitVec.toNat_sub_of_le one, length, right.counted]
    rfl
  · rw [Table.freeOperation, length]
    omega
  · exact right.handles.sublist (erase_sublist.map _)

theorem mem_freeOperation {other : Operation} (member : other ∈ table.operations)
    (different : other ≠ operation) : other ∈ (table.freeOperation operation).operations :=
  (mem_erase_of_ne different).mpr member

theorem Table.Right.addAtTail (right : table.Right)
    (room : table.operations.length < maxOperationsCount)
    (new : ∀ other ∈ table.operations, other.handle ≠ operation.handle) :
    (table.addAtTail operation).Right := by
  have length : (table.operations ++ [operation]).length = table.operations.length + 1 :=
    length_append
  have max : maxOperationsCount < 2 ^ 32 - 1 := by decide
  refine ⟨?_, ?_, ?_⟩
  · have one : (1 : BitVec 32).toNat = 1 := rfl
    have counted := right.counted
    rw [Table.addAtTail, BitVec.toNat_add_of_lt (by omega), length, one, counted]
  · rw [Table.addAtTail, length]
    exact room
  · rw [Table.addAtTail, map_append]
    refine nodup_append.mpr ⟨right.handles, pairwise_singleton _ _, ?_⟩
    rintro handle member last equal rfl
    obtain ⟨other, old, rfl⟩ := mem_map.mp member
    exact new other old (mem_singleton.mp equal)

theorem deleteSessions_right {caller : ProcessInfo} {todo : List Operation} (right : table.Right)
    (inside : ∀ other ∈ todo, other ∈ table.operations) (once : todo.Nodup) :
    (deleteSessions caller todo table).Right ∧
      ∀ other ∈ table.operations, (other ∈ todo → isNeedDelete caller other = false) →
        other ∈ (deleteSessions caller todo table).operations := by
  induction todo generalizing table with
  | nil => exact ⟨right, fun other member _ => member⟩
  | cons first rest hypothesis =>
    obtain ⟨apart, once⟩ := nodup_cons.mp once
    rw [deleteSessions]
    split
    · next needed =>
      have still : ∀ other ∈ rest, other ∈ (table.freeOperation first).operations :=
        fun other member => mem_freeOperation (inside other (mem_cons_of_mem _ member))
          fun equal => apart (equal ▸ member)
      obtain ⟨good, stays⟩ := hypothesis
        (right.freeOperation (inside first mem_cons_self)) still once
      refine ⟨good, fun other member kept => stays other (mem_freeOperation member ?_)
        fun later => kept (mem_cons_of_mem _ later)⟩
      rintro rfl
      exact absurd ((kept mem_cons_self).symm.trans needed) nofun
    · obtain ⟨good, stays⟩ := hypothesis right
        (fun other member => inside other (mem_cons_of_mem _ member)) once
      exact ⟨good, fun other member kept => stays other member
        fun later => kept (mem_cons_of_mem _ later)⟩

end Tables

/-! ### Every step -/

section Steps

variable {state next : State}

theorem Correct.right (correct : Correct state) : state.table.Right :=
  ⟨correct.counted, correct.bounded, correct.handles⟩

theorem ne_of_unused {operation : Operation} (unused : state.unused operation = true)
    {use : Nat × Operation} (member : use ∈ state.users) : use.2 ≠ operation :=
  bne_iff_ne.mp (all_eq_true.mp unused use member)

theorem Correct.of_right {table : Table} {log : List (ProcessInfo × Operation)}
    (correct : Correct state) (right : table.Right)
    (live : ∀ use ∈ state.users, use.2 ∈ table.operations)
    (owned : ∀ entry ∈ log, entry ∈ state.log ∨ owns entry.1 entry.2 = true) :
    Correct { state with table := table, log := log } :=
  ⟨right.counted, right.bounded, right.handles,
    fun entry member => (owned entry member).elim (correct.owned entry) id, live⟩

theorem Correct.addOperation (correct : Correct state) {operation : Operation}
    (admitted : (maxOperationsCount ≤ state.table.count.toNat ∧ state.table.evicted = none) ∨
      state.admits operation.handle = true) : (state.table.addOperation operation).1.Right ∧
      ∀ use ∈ state.users, use.2 ∈ (state.table.addOperation operation).1.operations := by
  have right := correct.right
  have counted := correct.counted
  have bounded := correct.bounded
  have new : ∀ {list : List Operation}, (list.all fun other => other.handle != operation.handle) =
      true → ∀ other ∈ list, other.handle ≠ operation.handle := fun all other member =>
    bne_iff_ne.mp (all_eq_true.mp all other member)
  rw [Table.addOperation]
  by_cases full : maxOperationsCount ≤ state.table.count.toNat
  · have evicts : state.table.evicted = state.table.operations.find? Operation.abortable :=
      if_pos full
    rw [if_pos full, Table.deleteFirstAbortableOperation]
    rw [State.admits, evicts] at admitted
    cases found : state.table.operations.find? Operation.abortable with
    | none => exact ⟨right, correct.live⟩
    | some old =>
      have member := mem_of_find?_eq_some found
      rw [found] at admitted
      have both := admitted.resolve_left fun none_ => some_ne_none _ none_.2
      obtain ⟨unused, others⟩ := Bool.and_eq_true_iff.mp both
      have length := length_erase_of_mem member
      have positive := length_pos_of_mem member
      refine ⟨(right.freeOperation member).addAtTail ?_ (new others), fun use used => ?_⟩
      · rw [Table.freeOperation, length]
        omega
      · exact mem_append_left _
          (mem_freeOperation (correct.live use used) (ne_of_unused unused used))
  · have evicts : state.table.evicted = none := if_neg full
    rw [if_neg full]
    rw [State.admits, evicts] at admitted
    have others := admitted.resolve_left fun full_ => full full_.1
    exact ⟨right.addAtTail (by omega) (new others), fun use used =>
      mem_append_left _ (correct.live use used)⟩

theorem Correct.create (correct : Correct state) {caller : ProcessInfo} {operationHandle : Bytes}
    {abortable : Bool} {events : CreateEvents}
    (careful_ : careful state (.create caller operationHandle abortable events) = true) :
    (state.table.createOperation caller operationHandle abortable events).1.Right ∧
      ∀ use ∈ state.users, use.2 ∈
        (state.table.createOperation caller operationHandle abortable events).1.operations := by
  have unchanged : state.table.Right ∧ ∀ use ∈ state.users, use.2 ∈ state.table.operations :=
    ⟨correct.right, correct.live⟩
  rw [Table.createOperation]
  rw [careful] at careful_
  cases given : events.operation with
  | none => exact unchanged
  | some address =>
    dsimp only
    split
    · exact unchanged
    next memory =>
    cases handled : constructOperationHandle operationHandle with
    | error failure => exact unchanged
    | ok handle =>
      refine correct.addOperation ?_
      have good : (events.userId && events.processName) = true :=
        Bool.eq_true_of_not_eq_false memory
      rw [handled, given] at careful_
      rw [isSome_some, Bool.true_and, good, Bool.not_true, Bool.false_or,
        Bool.or_eq_true, Bool.and_eq_true, decide_eq_true_iff, isNone_iff_eq_none]
        at careful_
      exact careful_

theorem correct_of_step {action : Action} (correct : Correct state)
    (careful_ : careful state action = true) (result : step state action = some next) :
    Correct next := by
  cases action with
  | create caller operationHandle abortable events =>
    obtain ⟨_, same⟩ := ite_none_right_eq_some.mp result
    obtain rfl := some_inj.mp same
    obtain ⟨right, live⟩ := correct.create careful_
    exact correct.of_right right live fun _ => Or.inl
  | query task caller operationHandle =>
    rw [step] at result
    cases found : state.table.queryOperation caller operationHandle with
    | none =>
      rw [found] at result
      obtain rfl := some_inj.mp result
      exact correct
    | some operation =>
      rw [found] at result
      obtain rfl := some_inj.mp result
      rw [Table.queryOperation] at found
      cases handle : constructOperationHandle operationHandle with
      | error failure =>
        rw [handle] at found
        cases found
      | ok handle_ =>
        rw [handle] at found
        have member := mem_of_find?_eq_some found
        have test := List.find?_some found
        rw [Bool.and_eq_true, Bool.and_eq_true] at test
        refine ⟨correct.counted, correct.bounded, correct.handles, ?_, ?_⟩
        · refine forall_mem_cons.mpr ⟨?_, correct.owned⟩
          exact Bool.and_eq_true_iff.mpr ⟨test.2, test.1.2⟩
        · exact forall_mem_cons.mpr ⟨member, correct.live⟩
  | finish task operation =>
    obtain ⟨_, same⟩ := ite_none_right_eq_some.mp result
    obtain rfl := some_inj.mp same
    exact ⟨correct.counted, correct.bounded, correct.handles, correct.owned,
      fun use member => correct.live use (mem_of_mem_erase member)⟩
  | delete caller operationHandle =>
    rw [step] at result
    rw [careful] at careful_
    cases found : state.table.findHandle operationHandle with
    | none =>
      rw [found] at result
      obtain rfl := some_inj.mp result
      rw [Table.deleteOperation, found]
      exact correct
    | some operation =>
      rw [found, all_some, Bool.and_eq_true] at careful_
      rw [found] at result
      obtain rfl := some_inj.mp result
      rw [Table.deleteOperation, found]
      have member : operation ∈ state.table.operations := by
        rw [Table.findHandle] at found
        cases handle : constructOperationHandle operationHandle with
        | error failure =>
          rw [handle] at found
          cases found
        | ok handle_ =>
          rw [handle] at found
          exact mem_of_find?_eq_some found
      refine correct.of_right (correct.right.freeOperation member) (fun use used =>
        mem_freeOperation (correct.live use used) (ne_of_unused careful_.2 used))
        (forall_mem_cons.mpr ⟨.inr careful_.1, fun _ => Or.inl⟩)
  | deleteByProcessInfo caller =>
    obtain rfl := some_inj.mp result
    have each : ∀ operation ∈ state.table.operations, isNeedDelete caller operation = true →
        owns caller operation = true ∧ state.unused operation = true := by
      intro operation member needed
      have both := all_eq_true.mp careful_ operation member
      rw [needed, Bool.not_true, Bool.false_or, Bool.and_eq_true] at both
      exact both
    obtain ⟨right, stays⟩ := @deleteSessions_right state.table caller state.table.operations
      correct.right (fun _ => id) (List.Pairwise.of_map Operation.handle
        (fun _ _ differ equal => differ (congrArg Operation.handle equal)) correct.handles)
    refine correct.of_right right (fun use used => ?_) fun entry member => ?_
    · refine stays use.2 (correct.live use used) fun member => ?_
      rw [← Bool.not_eq_true]
      exact fun needed => ne_of_unused (each use.2 member needed).2 used rfl
    · refine (mem_append.mp member).symm.imp_right fun removed => ?_
      obtain ⟨operation, among, rfl⟩ := mem_map.mp removed
      obtain ⟨inTable, needed⟩ := mem_filter.mp among
      exact (each operation inTable needed).1

end Steps

/-- In every run whose steps are careful, by any number of processes in any order: the count is the
length of the list and never above the limit, handles are unique, operations are found and removed
only for the process that created them, and what is used is in the list. -/
theorem session_correct_of_reachable {state : State}
    (reached : Reachable step (fun state action => careful state action = true) Initial state) :
    Correct state := by
  refine @Reachable.invariant _ _ _ _ _ state (fun state => Correct state) (fun state first => ?_)
    (fun state action next _ correct careful_ result => correct_of_step correct careful_ result)
    reached
  obtain rfl : state = _ := first
  exact ⟨rfl, Nat.zero_le _, List.nodup_nil, List.forall_mem_nil _, List.forall_mem_nil _⟩

def sampleProcess (name : BitVec 8) : ProcessInfo :=
  ⟨[0], [name], 0⟩

def sampleHandle (handle : BitVec 8) : Bytes :=
  [handle, 0, 0, 0, 0, 0, 0, 0]

/-- Two processes create an operation each, the first one finds and uses its own, and deletes it. -/
def sampleActions : List Action :=
  [.create (sampleProcess 1) (sampleHandle 7) true ⟨some 100, true, true⟩,
    .create (sampleProcess 2) (sampleHandle 8) true ⟨some 200, true, true⟩,
    .query 1 (sampleProcess 1) (sampleHandle 7),
    .finish 1 ⟨100, sampleProcess 1, 7, true⟩,
    .delete (sampleProcess 1) (sampleHandle 7)]

def sampleLast : State :=
  ⟨⟨[⟨200, sampleProcess 2, 8, true⟩], 1⟩, [],
    [(sampleProcess 1, ⟨100, sampleProcess 1, 7, true⟩),
      (sampleProcess 1, ⟨100, sampleProcess 1, 7, true⟩)]⟩

theorem initial_empty : Initial ⟨⟨[], 0⟩, [], []⟩ := rfl

theorem session_correct_of_reachable_sample : Correct sampleLast :=
  have result : execute step careful ⟨⟨[], 0⟩, [], []⟩ sampleActions = some sampleLast := by
    decide
  session_correct_of_reachable
    (.of_execute (fun _ _ meets => meets) _ (.start initial_empty) result)

/-- A process finishes with the handle of another one: the operation of that one is removed. -/
theorem removed_for_another :
    ∃ state, Reachable step (fun _ _ => True) Initial state ∧ ¬Correct state := by
  have result : execute step (fun _ _ => true) ⟨⟨[], 0⟩, [], []⟩
      [.create (sampleProcess 1) (sampleHandle 7) true ⟨some 100, true, true⟩,
        .query 2 (sampleProcess 2) (sampleHandle 7), .delete (sampleProcess 2) (sampleHandle 7)] =
      some ⟨⟨[], 0⟩, [], [(sampleProcess 2, ⟨100, sampleProcess 1, 7, true⟩)]⟩ := by
    decide
  refine ⟨_, .of_execute (fun _ _ _ => trivial) _ (.start initial_empty) result, fun correct => ?_⟩
  exact absurd (correct.owned _ List.mem_cons_self) (by decide)

end TowerSafe.Session
