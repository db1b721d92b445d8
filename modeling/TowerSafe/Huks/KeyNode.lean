/-
This file embeds the key nodes of `hks_keynode.c`, in the lite and in the full variant. A creation
makes two parameter sets, adds its node to the list under the lock, and only then stores the sets in
the node. The list is right in every state exactly as long as the random handles are new, no handle
is used before its creation has returned, and the lite variant neither reaches the limit nor finds
anything but null where it stores nothing.
-/

import TowerSafe.Library.Transition
import Mathlib.Data.List.Perm.Basic

namespace TowerSafe.KeyNode

open Library List

/-! ### Nodes -/

def maxKeyNodeCount : Nat := 100

/-- `struct HuksKeyNode` with its address. Parameter sets are addresses, and zero is null. -/
structure HuksKeyNode where
  address : Nat
  keyBlobParamSet : Nat
  runtimeParamSet : Nat
  authRuntimeParamSet : Nat
  handle : BitVec 64
  deriving DecidableEq

/-- How far a creation is: its node is ready, it is in the list, its key blob is stored, or the
creation has returned the node. -/
inductive Stage where
  | ready
  | added
  | stored
  | returned
  deriving DecidableEq

/-- A node with the parameter sets that its creation has made for it. -/
structure Entry where
  node : HuksKeyNode
  keyBlob : Nat
  runtime : Nat
  stage : Stage
  deriving DecidableEq

/-- The parameter sets that are allocated, and whether something else was freed. -/
structure Heap where
  allocated : List Nat
  wild : Bool
  deriving DecidableEq

def Heap.allocate (heap : Heap) (set : Nat) : Heap :=
  { heap with allocated := set :: heap.allocated }

/-- `HksFreeParamSet`, with what `FreeKeyBlobParamSet` and `FreeRuntimeParamSet` do before: nothing
for null. -/
def Heap.free (heap : Heap) (set : Nat) : Heap :=
  if set = 0 then heap
  else if set ∈ heap.allocated then { heap with allocated := heap.allocated.erase set }
  else { heap with wild := true }

/-- What happens in a creation before its node is added. -/
structure CreateEvents where
  /-- The memory of the node, with what is in it. -/
  node : Option HuksKeyNode
  /-- `HksCryptoHalFillRandom`. -/
  random : Option (BitVec 32)
  /-- `BuildRuntimeParamSet`. -/
  runtime : Option Nat
  /-- `HksGetRawKeyMaterial`, in the lite variant. -/
  rawKey : Bool
  /-- `HksTranslateKeyInfoBlobToParamSet` or `HksGetAadAndParamSet`. -/
  keyBlob : Option Nat
  /-- `HksDecryptKeyBlob`, in the full variant. -/
  decrypt : Bool
  deriving DecidableEq

def Heap.freeParamsForBuildKeyNode (heap : Heap) (runtimeParamSet keyBlobParamSet : Nat) : Heap :=
  (heap.free runtimeParamSet).free keyBlobParamSet

/-- `HksCreateKeyNode` of the full variant, until the node is added. -/
def prepareFull (heap : Heap) (events : CreateEvents) : Heap × Option Entry :=
  match events.node with
  | none => (heap, none)
  | some node =>
      match events.random with
      | none => (heap.freeParamsForBuildKeyNode 0 0, none)
      | some handle =>
          match events.runtime with
          | none => (heap.freeParamsForBuildKeyNode 0 0, none)
          | some runtime =>
              let heap := heap.allocate runtime
              match events.keyBlob with
              | none => (heap.freeParamsForBuildKeyNode runtime 0, none)
              | some keyBlob =>
                  let heap := heap.allocate keyBlob
                  if events.decrypt = false then
                    (heap.freeParamsForBuildKeyNode runtime keyBlob, none)
                  else
                    (heap, some ⟨{ node with handle := handle.setWidth 64 }, keyBlob, runtime,
                      .ready⟩)

/-- `HksCreateKeyNode` of the lite variant, until the node is added. -/
def prepareLite (heap : Heap) (events : CreateEvents) : Heap × Option Entry :=
  match events.node with
  | none => (heap, none)
  | some node =>
      match events.random with
      | none => (heap, none)
      | some handle =>
          match events.runtime with
          | none => (heap, none)
          | some runtime =>
              let heap := heap.allocate runtime
              if events.rawKey = false then (heap.free runtime, none)
              else
                match events.keyBlob with
                | none => (heap.free runtime, none)
                | some keyBlob =>
                    (heap.allocate keyBlob,
                      some ⟨{ node with handle := handle.setWidth 64 }, keyBlob, runtime, .ready⟩)

/-! ### Runs -/

/-- The list, the count, the creations whose node is not added yet, the memory, and for every query
that found a node the handle and the node as it was then. -/
structure State where
  list : List Entry
  count : BitVec 32
  adding : List Entry
  heap : Heap
  log : List (BitVec 64 × Entry)
  deriving DecidableEq

inductive Action where
  | create (events : CreateEvents)
  | add (entry : Entry)
  | storeKeyBlob (address : Nat)
  | storeRuntime (address : Nat)
  | query (handle : BitVec 64)
  | delete (handle : BitVec 64)
  deriving DecidableEq

/-- Memory is given only where none is in use. -/
def State.gives (state : State) (events : CreateEvents) : Bool :=
  (events.node.all fun node => (state.adding ++ state.list).all fun entry =>
      entry.node.address != node.address) &&
    (events.runtime.all fun runtime => runtime != 0 && !state.heap.allocated.contains runtime) &&
    events.keyBlob.all fun keyBlob => keyBlob != 0 && !state.heap.allocated.contains keyBlob &&
      events.runtime != some keyBlob

def Entry.storeKeyBlob (address : Nat) (entry : Entry) : Entry :=
  if entry.node.address = address ∧ entry.stage = .added then
    { entry with
      node := { entry.node with keyBlobParamSet := entry.keyBlob }
      stage := .stored }
  else entry

/-- The other set is stored in the node at an address, in the full variant with a null for the third
one, and the node is returned. -/
def Entry.storeRuntime (lite : Bool) (address : Nat) (entry : Entry) : Entry :=
  if entry.node.address = address ∧ entry.stage = .stored then
    { entry with
      node := { entry.node with
        runtimeParamSet := entry.runtime
        authRuntimeParamSet := if lite then entry.node.authRuntimeParamSet else 0 }
      stage := .returned }
  else entry

/-- What is found by a handle: the first node with it. -/
def State.find (state : State) (handle : BitVec 64) : Option Entry :=
  state.list.find? fun entry => entry.node.handle == handle

/-- The frees of `HksDeleteKeyNode`. -/
def Heap.freeNode (heap : Heap) (node : HuksKeyNode) : Heap :=
  ((heap.free node.keyBlobParamSet).free node.runtimeParamSet).free node.authRuntimeParamSet

section Steps

variable (lite : Bool)

/-- `AddKeyNode`, and when it fails, what `HksCreateKeyNode` frees. -/
def State.add (state : State) (entry : Entry) : State :=
  if maxKeyNodeCount ≤ state.count.toNat then
    { state with
      adding := state.adding.erase entry
      heap :=
        if lite then state.heap.free entry.runtime
        else state.heap.freeParamsForBuildKeyNode entry.runtime entry.keyBlob }
  else
    { state with
      adding := state.adding.erase entry
      list := { entry with stage := .added } :: state.list
      count := state.count + 1 }

/-- `HksDeleteKeyNode`. -/
def State.delete (state : State) (handle : BitVec 64) : State :=
  match state.find handle with
  | none => state
  | some entry =>
      { state with
        list := state.list.erase entry
        count := state.count - 1
        heap := state.heap.freeNode entry.node }

def step (state : State) : Action → Option State
  | .create events =>
      if state.gives events then
        let prepared := if lite then prepareLite state.heap events
          else prepareFull state.heap events
        match prepared.2 with
        | none => some { state with heap := prepared.1 }
        | some entry => some { state with heap := prepared.1, adding := entry :: state.adding }
      else none
  | .add entry => if entry ∈ state.adding then some (state.add lite entry) else none
  | .storeKeyBlob address => some { state with list := state.list.map (·.storeKeyBlob address) }
  | .storeRuntime address =>
      some { state with list := state.list.map (·.storeRuntime lite address) }
  | .query handle =>
      match state.find handle with
      | none => some state
      | some entry => some { state with log := (handle, entry) :: state.log }
  | .delete handle => some (state.delete handle)

def Initial (state : State) : Prop :=
  state = ⟨[], 0, [], ⟨[], false⟩, []⟩

def Entry.sets (entry : Entry) : List Nat :=
  [entry.runtime, entry.keyBlob]

/-- What is right in every state. -/
structure Correct (state : State) : Prop where
  counted : state.count.toNat = state.list.length
  bounded : state.list.length ≤ maxKeyNodeCount
  handles : (state.list.map fun entry => entry.node.handle).Nodup
  /-- A query finds the node whose creation has returned its handle, with both sets stored. -/
  found : ∀ query ∈ state.log, query.2.node.handle = query.1 ∧ query.2.stage = .returned ∧
    query.2.node.keyBlobParamSet = query.2.keyBlob ∧
      query.2.node.runtimeParamSet = query.2.runtime
  /-- The sets that are allocated are those of nodes and of creations. -/
  owned : state.heap.allocated.Perm ((state.adding ++ state.list).flatMap Entry.sets)
  tame : state.heap.wild = false

/-- A step with which a creation fails. -/
def fails (state : State) : Action → Bool
  | .create events =>
      (if lite then prepareLite state.heap events else prepareFull state.heap events).2.isNone
  | .add _ => decide (maxKeyNodeCount ≤ state.count.toNat)
  | _ => false

/-- What it takes: a node is added with a handle that no node has, in the lite variant not at the
limit; a handle is queried or deleted only when the creation of its node has returned, and in the
lite variant deleted only when null was where nothing is stored. -/
def careful (state : State) : Action → Bool
  | .add entry =>
      if maxKeyNodeCount ≤ state.count.toNat then !lite
      else state.list.all fun other => other.node.handle != entry.node.handle
  | .query handle => (state.find handle).all fun entry => entry.stage == .returned
  | .delete handle =>
      (state.find handle).all fun entry =>
        entry.stage == .returned && (!lite || entry.node.authRuntimeParamSet == 0)
  | _ => true

end Steps

/-! ### Memory -/

theorem Heap.free_perm {heap : Heap} {set : Nat} {rest : List Nat}
    (perm : heap.allocated.Perm (set :: rest)) (some_ : set ≠ 0) :
    (heap.free set).allocated.Perm rest ∧ (heap.free set).wild = heap.wild := by
  have member : set ∈ heap.allocated := perm.symm.subset mem_cons_self
  rw [Heap.free, if_neg some_, if_pos member]
  have erased := perm.erase set
  rw [erase_cons_head] at erased
  exact ⟨erased, rfl⟩

theorem Heap.free_null (heap : Heap) : heap.free 0 = heap := if_pos rfl

theorem Heap.free_allocate (heap : Heap) {set : Nat} (some_ : set ≠ 0) :
    (heap.allocate set).free set = heap := by
  rw [Heap.allocate, Heap.free, if_neg some_, if_pos mem_cons_self, erase_cons_head]

theorem Heap.free_allocate_allocate (heap : Heap) {first second : Nat} (some_ : first ≠ 0)
    (differ : first ≠ second) :
    ((heap.allocate first).allocate second).free first = heap.allocate second := by
  have member : first ∈ second :: first :: heap.allocated :=
    mem_cons_of_mem _ mem_cons_self
  have other : (second == first) = false := beq_eq_false_iff_ne.mpr differ.symm
  rw [Heap.allocate, Heap.allocate, Heap.free, if_neg some_, if_pos member, Heap.allocate,
    erase_cons_tail (by rw [other]; exact Bool.false_ne_true), erase_cons_head]

theorem gives_sets {state : State} {events : CreateEvents} (gives : state.gives events = true) :
    (∀ runtime, events.runtime = some runtime → runtime ≠ 0) ∧
      ∀ keyBlob, events.keyBlob = some keyBlob →
        keyBlob ≠ 0 ∧ events.runtime ≠ some keyBlob := by
  rw [State.gives, Bool.and_eq_true, Bool.and_eq_true] at gives
  obtain ⟨⟨_, runtimes⟩, keyBlobs⟩ := gives
  constructor
  · intro runtime given
    rw [given, Option.all_some, Bool.and_eq_true] at runtimes
    exact bne_iff_ne.mp runtimes.1
  · intro keyBlob given
    rw [given, Option.all_some, Bool.and_eq_true, Bool.and_eq_true] at keyBlobs
    exact ⟨bne_iff_ne.mp keyBlobs.1.1, bne_iff_ne.mp keyBlobs.2⟩

theorem prepare_cases {state : State} {events : CreateEvents} (lite : Bool)
    (gives : state.gives events = true) :
    (if lite then prepareLite state.heap events else prepareFull state.heap events) =
        (state.heap, none) ∨
      ∃ entry, entry.stage = .ready ∧ (entry.keyBlob ≠ 0 ∧ entry.runtime ≠ 0) ∧
        (if lite then prepareLite state.heap events else prepareFull state.heap events) =
          ((state.heap.allocate entry.runtime).allocate entry.keyBlob, some entry) := by
  obtain ⟨runtimes, keyBlobs⟩ := gives_sets gives
  cases lite with
  | true =>
    rw [if_pos rfl, prepareLite]
    cases events.node with
    | none => exact .inl rfl
    | some node =>
      cases events.random with
      | none => exact .inl rfl
      | some handle =>
        cases made : events.runtime with
        | none => exact .inl rfl
        | some runtime =>
          have some_ := runtimes runtime made
          have freed := state.heap.free_allocate some_
          dsimp only
          split
          · rw [freed]
            exact .inl rfl
          cases key : events.keyBlob with
          | none =>
            rw [freed]
            exact .inl rfl
          | some keyBlob =>
            exact .inr ⟨⟨{ node with handle := handle.setWidth 64 }, keyBlob, runtime, .ready⟩,
              rfl, ⟨(keyBlobs keyBlob key).1, some_⟩, rfl⟩
  | false =>
    rw [if_neg Bool.false_ne_true, prepareFull]
    cases events.node with
    | none => exact .inl rfl
    | some node =>
      cases events.random with
      | none =>
        exact .inl rfl
      | some handle =>
        cases made : events.runtime with
        | none =>
          exact .inl rfl
        | some runtime =>
          have some_ := runtimes runtime made
          cases key : events.keyBlob with
          | none =>
            dsimp only
            rw [Heap.freeParamsForBuildKeyNode, Heap.free_allocate _ some_]
            exact .inl rfl
          | some keyBlob =>
            obtain ⟨present, other⟩ := keyBlobs keyBlob key
            dsimp only
            split
            · rw [Heap.freeParamsForBuildKeyNode, Heap.free_allocate_allocate _ some_
                fun equal => other (by rw [made, equal]), Heap.free_allocate _ present]
              exact .inl rfl
            · exact .inr ⟨⟨{ node with handle := handle.setWidth 64 }, keyBlob, runtime, .ready⟩,
                rfl, ⟨present, some_⟩, rfl⟩

/-! ### Every step -/

section Steps

variable {lite : Bool} {state next : State}

/-- The fields of a node in the list, as far as its creation is. -/
structure Entry.Stored (lite : Bool) (entry : Entry) : Prop where
  linked : entry.stage ≠ .ready
  keyBlob : entry.stage = .stored ∨ entry.stage = .returned →
    entry.node.keyBlobParamSet = entry.keyBlob
  runtime : entry.stage = .returned → entry.node.runtimeParamSet = entry.runtime
  auth : entry.stage = .returned → lite = false → entry.node.authRuntimeParamSet = 0

/-- What is right in every state, with the fields of the nodes. -/
structure Invariant (lite : Bool) (state : State) : Prop where
  correct : Correct state
  stored : ∀ entry ∈ state.list, entry.Stored lite
  present : ∀ entry ∈ state.adding ++ state.list, entry.keyBlob ≠ 0 ∧ entry.runtime ≠ 0

theorem Entry.storeKeyBlob_kept (address : Nat) (entry : Entry) :
    (entry.storeKeyBlob address).node.handle = entry.node.handle ∧
      (entry.storeKeyBlob address).sets = entry.sets ∧
        (entry.storeKeyBlob address).keyBlob = entry.keyBlob ∧
          (entry.storeKeyBlob address).runtime = entry.runtime := by
  rw [Entry.storeKeyBlob]
  split
  · exact ⟨rfl, rfl, rfl, rfl⟩
  · exact ⟨rfl, rfl, rfl, rfl⟩

theorem Entry.storeRuntime_kept (address : Nat) (entry : Entry) :
    (entry.storeRuntime lite address).node.handle = entry.node.handle ∧
      (entry.storeRuntime lite address).sets = entry.sets ∧
        (entry.storeRuntime lite address).keyBlob = entry.keyBlob ∧
          (entry.storeRuntime lite address).runtime = entry.runtime := by
  rw [Entry.storeRuntime]
  split
  · exact ⟨rfl, rfl, rfl, rfl⟩
  · exact ⟨rfl, rfl, rfl, rfl⟩

theorem Entry.Stored.storeKeyBlob {entry : Entry} (stored : entry.Stored lite) (address : Nat) :
    (entry.storeKeyBlob address).Stored lite := by
  rw [Entry.storeKeyBlob]
  split
  · exact ⟨Stage.noConfusion, fun _ => rfl, Stage.noConfusion, Stage.noConfusion⟩
  · exact stored

theorem Entry.Stored.storeRuntime {entry : Entry} (stored : entry.Stored lite) (address : Nat) :
    (entry.storeRuntime lite address).Stored lite := by
  rw [Entry.storeRuntime]
  split
  · next here =>
    refine ⟨Stage.noConfusion, fun _ => stored.keyBlob (.inl here.2), fun _ => rfl,
      fun _ full => ?_⟩
    rw [full]
    rfl
  · exact stored

theorem Invariant.map (invariant : Invariant lite state) (store : Entry → Entry)
    (kept : ∀ entry, (store entry).node.handle = entry.node.handle ∧
      (store entry).sets = entry.sets ∧ (store entry).keyBlob = entry.keyBlob ∧
        (store entry).runtime = entry.runtime)
    (stored : ∀ entry, entry.Stored lite → (store entry).Stored lite) :
    Invariant lite { state with list := state.list.map store } := by
  have correct := invariant.correct
  have handles : (state.list.map store).map (fun entry => entry.node.handle) =
      state.list.map fun entry => entry.node.handle := by
    rw [map_map]
    exact map_congr_left fun entry _ => (kept entry).1
  have sets : (state.list.map store).flatMap Entry.sets = state.list.flatMap Entry.sets := by
    rw [flatMap_map]
    exact flatMap_congr fun entry _ => (kept entry).2.1
  refine ⟨⟨?_, ?_, ?_, correct.found, ?_, correct.tame⟩, fun entry member => ?_,
    fun entry member => ?_⟩
  · rw [length_map]
    exact correct.counted
  · rw [length_map]
    exact correct.bounded
  · rw [handles]
    exact correct.handles
  · have owned := correct.owned
    rw [flatMap_append] at owned ⊢
    rwa [sets]
  · obtain ⟨old, among, rfl⟩ := mem_map.mp member
    exact stored old (invariant.stored old among)
  · rcases mem_append.mp member with adding | linked
    · exact invariant.present entry (mem_append_left _ adding)
    · obtain ⟨old, among, rfl⟩ := mem_map.mp linked
      rw [(kept old).2.2.1, (kept old).2.2.2]
      exact invariant.present old (mem_append_right _ among)

theorem Invariant.prepared (invariant : Invariant lite state) {entry : Entry}
    (present : entry.keyBlob ≠ 0 ∧ entry.runtime ≠ 0) : Invariant lite { state with
      heap := (state.heap.allocate entry.runtime).allocate entry.keyBlob
      adding := entry :: state.adding } := by
  have correct := invariant.correct
  refine ⟨⟨correct.counted, correct.bounded, correct.handles, correct.found, ?_, correct.tame⟩,
    invariant.stored, forall_mem_cons.mpr ⟨present, invariant.present⟩⟩
  refine (List.Perm.swap entry.runtime entry.keyBlob state.heap.allocated).trans ?_
  exact (correct.owned.cons _).cons _

theorem freeParams_perm {heap : Heap} {entry : Entry} {rest : List Nat}
    (perm : heap.allocated.Perm (entry.sets ++ rest))
    (present : entry.keyBlob ≠ 0 ∧ entry.runtime ≠ 0) :
    (heap.freeParamsForBuildKeyNode entry.runtime entry.keyBlob).allocated.Perm rest ∧
      (heap.freeParamsForBuildKeyNode entry.runtime entry.keyBlob).wild = heap.wild := by
  obtain ⟨first, same⟩ := Heap.free_perm perm present.2
  obtain ⟨second, same'⟩ := Heap.free_perm first present.1
  exact ⟨second, same'.trans same⟩

theorem Invariant.add (invariant : Invariant lite state) {entry : Entry}
    (member : entry ∈ state.adding) (careful_ : careful lite state (.add entry) = true) :
    Invariant lite (state.add lite entry) := by
  have correct := invariant.correct
  have counted := correct.counted
  have bounded := correct.bounded
  have present := invariant.present entry (mem_append_left _ member)
  have others : ∀ other ∈ state.adding.erase entry ++ state.list,
      other.keyBlob ≠ 0 ∧ other.runtime ≠ 0 := by
    intro other among
    refine invariant.present other ?_
    exact (mem_append.mp among).elim
      (fun adding => mem_append_left _ (mem_of_mem_erase adding))
      fun linked => mem_append_right _ linked
  have split : (state.adding ++ state.list).Perm
      (entry :: (state.adding.erase entry ++ state.list)) :=
    (perm_cons_erase member).append_right state.list
  have owned := correct.owned.trans (split.flatMap_right Entry.sets)
  rw [careful] at careful_
  rw [State.add]
  by_cases full : maxKeyNodeCount ≤ state.count.toNat
  · rw [if_pos full] at careful_ ⊢
    obtain rfl : lite = false := by
      rwa [Bool.not_eq_true'] at careful_
    obtain ⟨freed, same⟩ := freeParams_perm owned present
    exact ⟨⟨counted, bounded, correct.handles, correct.found, freed, same.trans correct.tame⟩,
      invariant.stored, others⟩
  · rw [if_neg full] at careful_ ⊢
    have max : maxKeyNodeCount < 2 ^ 32 := by decide
    have one : (1 : BitVec 32).toNat = 1 := rfl
    have added : Entry.Stored lite { entry with stage := .added } :=
      ⟨Stage.noConfusion, fun either => either.elim Stage.noConfusion Stage.noConfusion,
        Stage.noConfusion, Stage.noConfusion⟩
    refine ⟨⟨?_, ?_, ?_, correct.found, ?_, correct.tame⟩,
      forall_mem_cons.mpr ⟨added, invariant.stored⟩, fun other among => ?_⟩
    · rw [BitVec.toNat_add_of_lt (by omega), one, counted, length_cons]
    · rw [length_cons]
      omega
    · refine nodup_cons.mpr ⟨fun again => ?_, correct.handles⟩
      obtain ⟨other, among, same⟩ := mem_map.mp again
      exact bne_iff_ne.mp (all_eq_true.mp careful_ other among) same
    · have moved : (state.adding.erase entry ++ { entry with stage := .added } ::
          state.list).Perm ({ entry with stage := .added } ::
            (state.adding.erase entry ++ state.list)) := perm_middle
      refine owned.trans ?_
      have sets := (moved.flatMap_right Entry.sets).symm
      exact sets
    · rcases mem_append.mp among with adding | linked
      · exact others other (mem_append_left _ adding)
      · rcases mem_cons.mp linked with rfl | linked
        · exact present
        · exact others other (mem_append_right _ linked)

theorem Invariant.delete (invariant : Invariant lite state) {handle : BitVec 64}
    (careful_ : careful lite state (.delete handle) = true) :
    Invariant lite (state.delete handle) := by
  have correct := invariant.correct
  rw [careful] at careful_
  rw [State.delete]
  cases found : state.find handle with
  | none => exact invariant
  | some entry =>
    have member : entry ∈ state.list := mem_of_find?_eq_some found
    rw [found, Option.all_some, Bool.and_eq_true] at careful_
    have returned : entry.stage = .returned := beq_iff_eq.mp careful_.1
    have stored := invariant.stored entry member
    have present := invariant.present entry (mem_append_right _ member)
    have null : entry.node.authRuntimeParamSet = 0 := by
      cases lite with
      | false => exact stored.auth returned rfl
      | true => exact beq_iff_eq.mp careful_.2
    have split : (state.adding ++ state.list).Perm
        (entry :: (state.adding ++ state.list.erase entry)) :=
      ((perm_cons_erase member).append_left state.adding).trans perm_middle
    have owned := correct.owned.trans (split.flatMap_right Entry.sets)
    have swapped : state.heap.allocated.Perm (entry.keyBlob :: entry.runtime ::
        (state.adding ++ state.list.erase entry).flatMap Entry.sets) :=
      owned.trans (List.Perm.swap _ _ _)
    obtain ⟨first, same⟩ := Heap.free_perm swapped present.1
    obtain ⟨second, same'⟩ := Heap.free_perm first present.2
    have freed : state.heap.freeNode entry.node =
        (state.heap.free entry.keyBlob).free entry.runtime := by
      rw [Heap.freeNode, stored.keyBlob (.inr returned), stored.runtime returned, null,
        Heap.free_null]
    have length := length_erase_of_mem member
    have positive := length_pos_of_mem member
    have counted := correct.counted
    have bounded := correct.bounded
    dsimp only
    rw [freed]
    refine ⟨⟨?_, ?_, ?_, correct.found, second, (same'.trans same).trans correct.tame⟩,
      fun other among => invariant.stored other (mem_of_mem_erase among),
      fun other among => ?_⟩
    · have one : (1 : BitVec 32) ≤ state.count := by
        change 1 ≤ state.count.toNat
        omega
      rw [BitVec.toNat_sub_of_le one, length, counted]
      rfl
    · dsimp only
      omega
    · exact correct.handles.sublist (erase_sublist.map _)
    · refine invariant.present other ?_
      exact (mem_append.mp among).elim (fun adding => mem_append_left _ adding)
        fun linked => mem_append_right _ (mem_of_mem_erase linked)

theorem invariant_of_step {action : Action} (invariant : Invariant lite state)
    (careful_ : careful lite state action = true) (result : step lite state action = some next) :
    Invariant lite next := by
  cases action with
  | create events =>
    obtain ⟨gives, same⟩ := Option.ite_none_right_eq_some.mp result
    rcases prepare_cases lite gives with failed | ⟨entry, _, present, made⟩
    · rw [failed] at same
      obtain rfl := Option.some_inj.mp same
      exact invariant
    · rw [made] at same
      obtain rfl := Option.some_inj.mp same
      exact invariant.prepared present
  | add entry =>
    obtain ⟨member, same⟩ := Option.ite_none_right_eq_some.mp result
    obtain rfl := Option.some_inj.mp same
    exact invariant.add member careful_
  | storeKeyBlob address =>
    obtain rfl := Option.some_inj.mp result
    exact invariant.map _ (Entry.storeKeyBlob_kept address) fun _ stored =>
      stored.storeKeyBlob address
  | storeRuntime address =>
    obtain rfl := Option.some_inj.mp result
    exact invariant.map _ (Entry.storeRuntime_kept address) fun _ stored =>
      stored.storeRuntime address
  | query handle =>
    rw [step] at result
    rw [careful] at careful_
    cases found : state.find handle with
    | none =>
      rw [found] at result
      obtain rfl := Option.some_inj.mp result
      exact invariant
    | some entry =>
      rw [found] at result
      rw [found] at careful_
      obtain rfl := Option.some_inj.mp result
      have correct := invariant.correct
      have returned : entry.stage = .returned := beq_iff_eq.mp careful_
      have stored := invariant.stored entry (mem_of_find?_eq_some found)
      have first : state.list.find? (fun entry => entry.node.handle == handle) = some entry := found
      have same := List.find?_some first
      refine ⟨⟨correct.counted, correct.bounded, correct.handles, ?_, correct.owned,
        correct.tame⟩, invariant.stored, invariant.present⟩
      exact forall_mem_cons.mpr ⟨⟨beq_iff_eq.mp same, returned,
        stored.keyBlob (.inr returned), stored.runtime returned⟩, correct.found⟩
  | delete handle =>
    obtain rfl := Option.some_inj.mp result
    exact invariant.delete careful_

theorem unchanged_of_fails {action : Action} (failed : fails lite state action = true)
    (result : step lite state action = some next) :
    next.list = state.list ∧ next.count = state.count := by
  cases action with
  | create events =>
    obtain ⟨gives, same⟩ := Option.ite_none_right_eq_some.mp result
    rw [fails] at failed
    rcases prepare_cases lite gives with nothing | ⟨entry, _, _, made⟩
    · rw [nothing] at same
      obtain rfl := Option.some_inj.mp same
      exact ⟨rfl, rfl⟩
    · rw [made] at failed
      cases failed
  | add entry =>
    obtain ⟨_, same⟩ := Option.ite_none_right_eq_some.mp result
    obtain rfl := Option.some_inj.mp same
    rw [State.add, if_pos (of_decide_eq_true failed)]
    exact ⟨rfl, rfl⟩
  | storeKeyBlob address => cases failed
  | storeRuntime address => cases failed
  | query handle => cases failed
  | delete handle => cases failed

end Steps

/-- In every run of either variant whose steps are careful: the count is the length of the list and
never above the limit, handles are unique, a query gives the node whose creation has returned its
handle, with both sets, no set is lost or freed by another one, and a creation that fails leaves the
list and the count. -/
theorem keyNode_correct_of_reachable (lite : Bool) {state : State}
    (reached : Reachable (step lite) (fun state action => careful lite state action = true)
      Initial state) : Correct state ∧ ∀ action next, fails lite state action = true →
      step lite state action = some next → next.list = state.list ∧ next.count = state.count := by
  have invariant := @Reachable.invariant _ _ _ _ _ state (fun state => Invariant lite state)
    (fun state first => by
      obtain rfl : state = _ := first
      exact ⟨⟨rfl, Nat.zero_le _, List.nodup_nil, List.forall_mem_nil _, List.Perm.nil, rfl⟩,
        List.forall_mem_nil _, List.forall_mem_nil _⟩)
    (fun state action next _ invariant careful_ result =>
      invariant_of_step invariant careful_ result) reached
  exact ⟨invariant.correct, fun action next => unchanged_of_fails⟩

theorem initial_empty : Initial ⟨[], 0, [], ⟨[], false⟩, []⟩ := rfl

/-- A creation in which nothing fails, with the node at an address. -/
def sampleEvents (address : Nat) (handle : BitVec 32) : CreateEvents :=
  ⟨some ⟨address, 0, 0, 0, 0⟩, some handle, some (address + 1), true, some (address + 2), true⟩

/-- The node of that creation when it is added. -/
def sampleEntry (address : Nat) (handle : BitVec 64) : Entry :=
  ⟨⟨address, 0, 0, 0, handle⟩, address + 2, address + 1, .ready⟩

/-- A node is created, found and deleted, while another one is added. -/
def sampleActions : List Action :=
  [.create (sampleEvents 100 7), .add (sampleEntry 100 7), .storeKeyBlob 100, .storeRuntime 100,
    .create (sampleEvents 200 8), .query 7, .add (sampleEntry 200 8), .delete 7]

def sampleLast : State :=
  ⟨[{ sampleEntry 200 8 with stage := .added }], 1, [], ⟨[202, 201], false⟩,
    [(7, ⟨⟨100, 102, 101, 0, 7⟩, 102, 101, .returned⟩)]⟩

theorem keyNode_correct_of_reachable_sample :
    Correct sampleLast ∧ ∀ action next, fails true sampleLast action = true →
      step true sampleLast action = some next →
        next.list = sampleLast.list ∧ next.count = sampleLast.count :=
  have result : execute (step true) (careful true) ⟨[], 0, [], ⟨[], false⟩, []⟩ sampleActions =
      some sampleLast := by
    decide
  keyNode_correct_of_reachable true
    (.of_execute (fun _ _ meets => meets) _ (.start initial_empty) result)

/-- The random handle of a node is queried before the sets are stored. -/
theorem found_without_sets :
    ∃ state, Reachable (step false) (fun _ _ => True) Initial state ∧ ¬Correct state := by
  have result : execute (step false) (fun _ _ => true) ⟨[], 0, [], ⟨[], false⟩, []⟩
      [.create (sampleEvents 100 7), .add (sampleEntry 100 7), .query 7] =
      some ⟨[{ sampleEntry 100 7 with stage := .added }], 1, [], ⟨[102, 101], false⟩,
        [(7, { sampleEntry 100 7 with stage := .added })]⟩ := by
    decide
  refine ⟨_, .of_execute (fun _ _ _ => trivial) _ (.start initial_empty) result, fun correct => ?_⟩
  exact absurd (correct.found _ List.mem_cons_self).2.1 (by decide)

end TowerSafe.KeyNode
