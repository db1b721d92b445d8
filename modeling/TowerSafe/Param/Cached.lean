/-
This file is about cached parameters (`CachedParameterCreate` and `CachedParameterGet`). A cache of
a parameter that was not found looks for it again when the commit id of the workspace has changed,
and one of a parameter that was found reads it again when the lower half of the parameter's own
commit id has changed. Writes come between the steps of the creation, and between the calls.
-/

import TowerSafe.Param.SeqLock
import TowerSafe.Param.Store

namespace TowerSafe.Cached

open Library Param SeqLock Option BitVec

/-! ### The program -/

/-- What changes in a `CachedParameter`. -/
structure CachedParameter where
  dataIndex : Nat
  dataCommitId : BitVec 32
  spaceCommitId : BitVec 64
  paramValue : CString
  deriving DecidableEq

/-- There is no cache, or its creation has looked the name up, read a commit id, copied the value,
and filled the buffer, or there is one. -/
inductive Cache where
  | none
  | found (dataIndex : Nat)
  | begun (dataIndex : Nat) (commitId : BitVec 32) (length : Nat)
  | copied (dataIndex : Nat) (commitId : BitVec 32) (value : CString)
  | filled (dataIndex : Nat) (dataCommitId : BitVec 32) (value : CString)
  | created (param : CachedParameter)
  deriving DecidableEq

/-- The name and the default value, the workspace and the cache. The last three fields are not in
the program: the updates of the parameter since its commit id was read, the commits of the workspace
since its commit id was read, and what the cache returned with what it had to return. -/
structure State where
  checked : Bool
  name : CString
  defValue : CString
  space : WorkSpace
  cache : Cache
  updates : Nat
  commits : Nat
  got : List (Option CString × CString)

/-- What happens next: a write, the look-up of `CachedParameterCreate`, a further step of it, or a
`CachedParameterGet`. -/
inductive Action where
  | write (name value : CString) (onlyAdd : Bool)
  | create (granted : Bool)
  | proceed
  | get
  deriving DecidableEq

/-- `(uint32_t)-1`. -/
def noCommitId : BitVec 32 := 0xffffffff

namespace State

variable (st : State)

/-- The index that `FindTrieNode` finds for the name. -/
def index : Nat :=
  st.space.findDataIndex st.name

def expected : CString :=
  (st.space.readParam st.name).getD st.defValue

/-- The length of a default value that `CachedParameterCreate` accepts. -/
def acceptsDefault : Prop :=
  st.defValue.length < if isReadyOnly st.name then paramConstValueLenMax else paramValueLenMax

instance : Decidable st.acceptsDefault := by
  unfold acceptsDefault
  infer_instance

/-- The look-up of `CachedParameterCreate`, if it has permission and memory. -/
def lookUp : Cache :=
  if st.index ≠ 0 then .found st.index
  else if st.defValue.length < paramValueLenMax then .filled 0 noCommitId st.defValue
  else .none

/-- A further step of `CachedParameterCreate`. -/
def proceed : Option State :=
  match st.cache with
  | .none => none
  | .found dataIndex =>
      match st.space.entryAt dataIndex with
      | none => some { st with cache := .none }
      | some entry =>
          match readCommitId entry.commitId with
          | none => some st
          | some id =>
              some { st with cache := .begun dataIndex id paramValueLenMax, updates := 0 }
  | .begun dataIndex commitId length =>
      match st.space.entryAt dataIndex with
      | none => some { st with cache := .none }
      | some entry =>
          if st.checked ∧ memcpyFails length entry.value.length then
            some { st with cache := .none }
          else some { st with cache := .copied dataIndex commitId entry.value }
  | .copied dataIndex commitId value =>
      match st.space.entryAt dataIndex with
      | none => some { st with cache := .none }
      | some entry =>
          match readCommitId entry.commitId with
          | none => some st
          | some id =>
              if commitId = id then some { st with cache := .filled dataIndex commitId value }
              else some { st with cache := .begun dataIndex id value.length, updates := 0 }
  | .filled dataIndex dataCommitId value =>
      some { st with
        cache := .created ⟨dataIndex, dataCommitId, st.space.commitId, value⟩
        commits := 0 }
  | .created _ => none

def returns (param : CachedParameter) (result : Option CString) : State :=
  { st with cache := .created param, got := (result, st.expected) :: st.got }

/-- `CachedParameterCheck` from where it looks at the entry. It does not return when the commit id
of the entry has the flag `PARAM_FLAGS_MODIFY`. -/
def checkEntry (param : CachedParameter) : Option State :=
  match st.space.entryAt param.dataIndex with
  | none => some (st.returns param (some param.paramValue))
  | some entry =>
      let dataCommitId := entry.commitId &&& WorkSpace.paramFlagsCommitId
      if param.dataCommitId = dataCommitId then some (st.returns param (some param.paramValue))
      else if st.checked ∧ memcpyFails paramValueLenMax entry.value.length then
        some (st.returns { param with dataCommitId := dataCommitId, paramValue := [] } none)
      else
        match readCommitId entry.commitId with
        | none => none
        | some _ =>
            some ({ st with updates := 0 }.returns
              { param with dataCommitId := dataCommitId, paramValue := entry.value }
              (some entry.value))

def check (param : CachedParameter) : Option State :=
  if param.dataIndex = 0 then
    if param.spaceCommitId = st.space.commitId then some (st.returns param (some param.paramValue))
    else
      { st with commits := 0 }.checkEntry
        { param with dataIndex := st.index, spaceCommitId := st.space.commitId }
  else st.checkEntry param

/-- The next state. -/
def step : Action → Option State
  | .write name value onlyAdd =>
      if Accepted name then
        let result := st.space.writeParam name value onlyAdd
        some { st with
          space := result.1
          updates :=
            if name = st.name ∧ st.index ≠ 0 ∧ result.2 = .success then st.updates + 1
            else st.updates
          commits := if result.1.commitId = st.space.commitId then st.commits else st.commits + 1 }
      else none
  | .create granted =>
      if st.cache = .none then
        if granted ∧ st.acceptsDefault then some { st with cache := st.lookUp } else some st
      else none
  | .proceed => st.proceed
  | .get =>
      match st.cache with
      | .created param => st.check param
      | _ => none

/-- A workspace that is in use, and a name without a cache. -/
def Initial : Prop :=
  Accepted st.name ∧ st.cache = .none ∧ st.got = [] ∧
    ∃ written, Reachable Param.step (fun _ _ => True) Initialised ⟨st.space, written⟩

def Agrees : Prop :=
  ∀ get ∈ st.got, get.1 = some get.2

def Fits : Prop :=
  (st.space.entryAt st.index).all fun entry => entry.value.length < paramValueLenMax

/-- The commit id of the name does not have the flag of an update. -/
def Unmarked : Prop :=
  (st.space.entryAt st.index).all fun entry => entry.commitId &&& paramFlagsModify = 0

instance : Decidable st.Fits := by
  unfold Fits
  infer_instance

instance : Decidable st.Unmarked := by
  unfold Unmarked
  infer_instance

/-- A value that is copied has room in the buffer. A cache that does not know the parameter is
finished while there is none. A get does not miss as many commits as there are commit ids, and does
not meet a commit id with the flag of an update. -/
def InOrder : Action → Prop
  | .proceed =>
      match st.cache with
      | .begun _ _ _ => st.Fits
      | .filled dataIndex _ _ => dataIndex = 0 → st.index = 0
      | _ => True
  | .get =>
      match st.cache with
      | .created param =>
          st.Fits ∧ st.Unmarked ∧ (param.dataIndex = 0 → st.commits % 2 ^ 64 = 0 → st.commits = 0) ∧
            (param.dataIndex ≠ 0 → st.updates % 65536 = 0 → st.updates = 0)
      | _ => True
  | _ => True

instance (action : Action) : Decidable (st.InOrder action) := by
  unfold InOrder
  cases action <;> dsimp only <;> try infer_instance
  all_goals cases st.cache <;> dsimp only <;> infer_instance

end State

/-! ### What a write does to the parameter -/

section Write

variable {space : WorkSpace} {name : CString}

section

variable (wellFormed : space.WellFormed)
include wellFormed

section

variable (accepted : Accepted name)
include accepted

theorem index_of_ne_zero
    (found : space.findDataIndex name ≠ 0) :
    name ≠ ['#'] ∧ space.findDataIndex name = space.dataIndexAt (rootKey :: subKeys name) := by
  have named : name ≠ ['#'] := by
    rintro rfl
    exact found wellFormed.findDataIndex_root
  exact ⟨named, wellFormed.findDataIndex_eq accepted named⟩

theorem entryAt_index
    (named : name ≠ ['#']) :
    space.entryAt (space.findDataIndex name) = space.paramAt (rootKey :: subKeys name) := by
  rw [wellFormed.findDataIndex_eq accepted named]
  rfl

/-- A name has an index just when it has a parameter. -/
theorem index_eq_zero_iff
    (named : name ≠ ['#']) :
    space.findDataIndex name = 0 ↔ space.paramAt (rootKey :: subKeys name) = none := by
  rw [← entryAt_index wellFormed accepted named]
  refine ⟨fun zero => by rw [zero, WorkSpace.entryAt_zero], fun missing => ?_⟩
  refine Decidable.byContradiction fun found => ?_
  rw [wellFormed.findDataIndex_eq accepted named] at missing found
  cases leads : space.nodeAt (subKeys name) with
  | none =>
    rw [leads] at found
    exact found rfl
  | some indexes =>
    rw [leads] at missing found
    obtain ⟨entry, present, -⟩ := wellFormed.entries _ indexes leads found
    exact absurd (missing.symm.trans present) nofun

theorem readParam_eq_entryAt :
    space.readParam name = (space.entryAt (space.findDataIndex name)).map ParamNode.value := by
  by_cases named : name = ['#']
  · subst named
    rw [wellFormed.readParam_root, wellFormed.findDataIndex_root]
    rfl
  · rw [wellFormed.readParam_eq accepted named, entryAt_index wellFormed accepted named]

theorem write_keeps
    {other value : CString} {onlyAdd : Bool} (otherAccepted : Accepted other)
    (apart : other = name → (space.writeParam other value onlyAdd).2 ≠ .success) :
    (space.writeParam other value onlyAdd).1.paramAt (rootKey :: subKeys name) =
      space.paramAt (rootKey :: subKeys name) := by
  have writes := wellFormed.writeParam otherAccepted value onlyAdd
  by_cases same : other = name
  · exact writes.failed (apart same) _
  · exact writes.others _ fun path =>
      same (subKeys_injective accepted.last otherAccepted.last (List.cons.inj path).2).symm

end

end

theorem add_one_ne (commitId : BitVec 64) : commitId + 1 ≠ commitId := by
  intro same
  have number := congrArg BitVec.toNat same
  rw [toNat_add, show (1 : BitVec 64).toNat = 1 from rfl] at number
  omega

theorem write_creates (wellFormed : space.WellFormed) (accepted : Accepted name)
    {other value : CString} {onlyAdd : Bool} (otherAccepted : Accepted other)
    (absent : space.findDataIndex name = 0)
    (quiet : (space.writeParam other value onlyAdd).1.commitId = space.commitId) :
    (space.writeParam other value onlyAdd).1.findDataIndex name = 0 := by
  have writes := wellFormed.writeParam otherAccepted value onlyAdd
  by_cases named : name = ['#']
  · subst named
    exact writes.wellFormed.findDataIndex_root
  rw [index_eq_zero_iff writes.wellFormed accepted named]
  rw [index_eq_zero_iff wellFormed accepted named] at absent
  rw [write_keeps wellFormed accepted otherAccepted fun same succeeds => ?_, absent]
  subst same
  exact add_one_ne _ ((writes.committed succeeds named).symm.trans quiet)

theorem write_entry (wellFormed : space.WellFormed) (accepted : Accepted name)
    {other value : CString} {onlyAdd : Bool} (otherAccepted : Accepted other) {entry : ParamNode}
    (found : space.findDataIndex name ≠ 0)
    (present : space.entryAt (space.findDataIndex name) = some entry) :
    (space.writeParam other value onlyAdd).1.findDataIndex name = space.findDataIndex name ∧
      ∃ after, (space.writeParam other value onlyAdd).1.entryAt (space.findDataIndex name) =
        some after ∧
          if other = name ∧ (space.writeParam other value onlyAdd).2 = .success then
            after.commitId = WorkSpace.nextCommitId entry.commitId else after = entry := by
  have writes := wellFormed.writeParam otherAccepted value onlyAdd
  obtain ⟨named, index⟩ := index_of_ne_zero wellFormed accepted found
  have same : (space.writeParam other value onlyAdd).1.findDataIndex name =
      space.findDataIndex name := by
    rw [writes.wellFormed.findDataIndex_eq accepted named, index]
    exact writes.index _ (index ▸ found)
  refine ⟨same, ?_⟩
  rw [← same, entryAt_index writes.wellFormed accepted named]
  rw [entryAt_index wellFormed accepted named] at present
  split
  · rename_i updates
    obtain ⟨rfl, succeeds⟩ := updates
    obtain ⟨after, holds, -, commitId⟩ := writes.written succeeds named
    rw [present] at commitId
    exact ⟨after, holds, commitId⟩
  · rename_i apart
    refine ⟨entry, ?_, rfl⟩
    rw [write_keeps wellFormed accepted otherAccepted fun same succeeds => apart ⟨same, succeeds⟩,
      present]

end Write

/-! ### What every run keeps -/

namespace State

variable {st next : State}

/-- An index and a commit id are those of the parameter, as many updates ago as are counted. -/
def Tracks (st : State) (dataIndex : Nat) (commitId : BitVec 32) : Prop :=
  dataIndex ≠ 0 ∧ dataIndex = st.index ∧ ∃ entry, st.space.entryAt dataIndex = some entry ∧
    commitId.toNat < 65536 ∧ idOf entry.commitId = (commitId.toNat + st.updates) % 65536

/-- A value is that of the parameter, unless there were updates. -/
def Holds (st : State) (dataIndex : Nat) (value : CString) : Prop :=
  ∀ entry, st.space.entryAt dataIndex = some entry → st.updates = 0 → value = entry.value

/-- The parameter has not been found. -/
def Unknown (st : State) (dataIndex : Nat) (commitId : BitVec 32) (value : CString) : Prop :=
  dataIndex = 0 ∧ commitId = noCommitId ∧ value = st.defValue

/-- The commit id of the workspace is as many commits old as are counted, and without one the
parameter does not exist. -/
def Absent (st : State) (spaceCommitId : BitVec 64) : Prop :=
  st.space.commitId = spaceCommitId + BitVec.ofNat 64 st.commits ∧ (st.commits = 0 → st.index = 0)

/-- What is known of a cache. -/
def Keeps (st : State) : Cache → Prop
  | .none => True
  | .found dataIndex => dataIndex ≠ 0 ∧ dataIndex = st.index
  | .begun dataIndex commitId _ => st.Tracks dataIndex commitId
  | .copied dataIndex commitId value =>
      st.Tracks dataIndex commitId ∧ st.Holds dataIndex value
  | .filled dataIndex commitId value =>
      st.Unknown dataIndex commitId value ∨
        st.Tracks dataIndex commitId ∧ st.Holds dataIndex value
  | .created param =>
      st.Unknown param.dataIndex param.dataCommitId param.paramValue ∧
          st.Absent param.spaceCommitId ∨
        st.Tracks param.dataIndex param.dataCommitId ∧ st.Holds param.dataIndex param.paramValue

/-- What every run keeps. -/
structure Invariant (st : State) : Prop where
  accepted : Accepted st.name
  wellFormed : st.space.WellFormed
  cache : st.Keeps st.cache
  agrees : st.Agrees

theorem entry_of_index (wellFormed : st.space.WellFormed) (accepted : Accepted st.name)
    (found : st.index ≠ 0) : ∃ entry, st.space.entryAt st.index = some entry := by
  obtain ⟨named, -⟩ := index_of_ne_zero wellFormed accepted found
  cases present : st.space.entryAt st.index with
  | some entry => exact ⟨entry, rfl⟩
  | none =>
    have absent := (entryAt_index wellFormed accepted named).symm.trans present
    exact absurd ((index_eq_zero_iff wellFormed accepted named).mpr absent) found

theorem toNat_of_readCommitId {commitId id : BitVec 32} (reads : readCommitId commitId = some id) :
    id.toNat = idOf commitId ∧ id.toNat < 65536 := by
  rw [readCommitId, ite_none_left_eq_some] at reads
  obtain rfl := some.inj reads.2
  refine ⟨rfl, ?_⟩
  show idOf commitId < 65536
  rw [idOf_eq]
  omega

theorem tracks_zero {dataIndex : Nat} {id : BitVec 32} {entry : ParamNode} (found : dataIndex ≠ 0)
    (index : dataIndex = st.index) (present : st.space.entryAt dataIndex = some entry)
    (number : id.toNat = idOf entry.commitId) (updates : st.updates = 0) :
    st.Tracks dataIndex id := by
  have small : idOf entry.commitId < 65536 := by
    rw [idOf_eq]
    omega
  refine ⟨found, index, entry, present, by omega, ?_⟩
  rw [updates]
  omega

theorem Tracks.write {dataIndex : Nat} {commitId : BitVec 32}
    (tracks : st.Tracks dataIndex commitId) (wellFormed : st.space.WellFormed)
    (accepted : Accepted st.name) {other value : CString} {onlyAdd : Bool}
    (otherAccepted : Accepted other) (steps : st.step (.write other value onlyAdd) = some next) :
    next.Tracks dataIndex commitId ∧ ∀ held, st.Holds dataIndex held → next.Holds dataIndex held := by
  rw [State.step, if_pos otherAccepted] at steps
  obtain rfl := some.inj steps
  obtain ⟨found, index, entry, present, small, number⟩ := tracks
  have here : st.index ≠ 0 := index ▸ found
  obtain ⟨same, after, holds, becomes⟩ := @write_entry st.space st.name wellFormed accepted other
    value onlyAdd otherAccepted entry here ((congrArg _ index).symm.trans present)
  have holds' : (st.space.writeParam other value onlyAdd).1.entryAt dataIndex = some after :=
    (congrArg _ index).trans holds
  by_cases updated : other = st.name ∧ (st.space.writeParam other value onlyAdd).2 = .success
  · have counts : other = st.name ∧ st.index ≠ 0 ∧
        (st.space.writeParam other value onlyAdd).2 = .success := ⟨updated.1, here, updated.2⟩
    rw [if_pos updated] at becomes
    refine ⟨⟨found, index.trans same.symm, after, holds', small, ?_⟩, fun held old one _ zero => ?_⟩
    · dsimp only
      rw [if_pos counts, becomes, idOf_nextCommitId]
      omega
    · rw [if_pos counts] at zero
      exact absurd zero (Nat.succ_ne_zero _)
  · have uncounted : ¬(other = st.name ∧ st.index ≠ 0 ∧
        (st.space.writeParam other value onlyAdd).2 = .success) := fun counts =>
      updated ⟨counts.1, counts.2.2⟩
    rw [if_neg updated] at becomes
    subst becomes
    refine ⟨⟨found, index.trans same.symm, after, holds', small, ?_⟩, fun held old one is zero => ?_⟩
    · rw [if_neg uncounted]
      exact number
    · rw [if_neg uncounted] at zero
      obtain rfl := some.inj (holds'.symm.trans is)
      exact old after present zero

theorem Absent.write {spaceCommitId : BitVec 64} (absent : st.Absent spaceCommitId)
    (wellFormed : st.space.WellFormed) (accepted : Accepted st.name) {other value : CString}
    {onlyAdd : Bool} (otherAccepted : Accepted other)
    (steps : st.step (.write other value onlyAdd) = some next) : next.Absent spaceCommitId := by
  rw [State.step, if_pos otherAccepted] at steps
  obtain rfl := some.inj steps
  have writes := wellFormed.writeParam otherAccepted value onlyAdd
  rw [Absent]
  by_cases quiet : (st.space.writeParam other value onlyAdd).1.commitId = st.space.commitId
  · rw [if_pos quiet, quiet]
    exact ⟨absent.1, fun zero =>
      write_creates wellFormed accepted otherAccepted (absent.2 zero) quiet⟩
  rw [if_neg quiet, writes.commitId.resolve_left quiet, absent.1]
  refine ⟨?_, fun zero => absurd zero (Nat.succ_ne_zero _)⟩
  rw [add_assoc]
  exact congrArg _ (ofNat_add ..).symm

theorem Invariant.write (invariant : Invariant st) {other value : CString} {onlyAdd : Bool}
    (steps : st.step (.write other value onlyAdd) = some next) : Invariant next := by
  have wellFormed := invariant.wellFormed
  have accepted := invariant.accepted
  have accepts := steps
  rw [State.step, ite_none_right_eq_some] at accepts
  obtain ⟨otherAccepted, becomes⟩ := accepts
  have writes := wellFormed.writeParam otherAccepted value onlyAdd
  have tracks := fun dataIndex commitId (before : st.Tracks dataIndex commitId) =>
    before.write wellFormed accepted otherAccepted steps
  have absent := fun spaceCommitId (before : st.Absent spaceCommitId) =>
    before.write wellFormed accepted otherAccepted steps
  have same : next.cache = st.cache ∧ next.name = st.name ∧ next.defValue = st.defValue ∧
      next.got = st.got ∧ next.space = (st.space.writeParam other value onlyAdd).1 := by
    rw [← some.inj becomes]
    exact ⟨rfl, rfl, rfl, rfl, rfl⟩
  obtain ⟨cache, name, defValue, got, space⟩ := same
  refine ⟨name ▸ accepted, space ▸ writes.wellFormed, ?_, fun get member =>
    invariant.agrees get (got ▸ member)⟩
  rw [cache]
  have keeps := invariant.cache
  cases phase : st.cache with
  | none => trivial
  | found dataIndex =>
    rw [phase] at keeps
    obtain ⟨found, index⟩ := keeps
    obtain ⟨entry, present⟩ := entry_of_index wellFormed accepted (index ▸ found)
    have after := @write_entry st.space st.name wellFormed accepted other value onlyAdd
      otherAccepted entry (show st.index ≠ 0 from index ▸ found) present
    refine ⟨found, index.trans ?_⟩
    rw [State.index, State.index, name, space]
    exact after.1.symm
  | begun dataIndex commitId length =>
    rw [phase] at keeps
    exact (tracks _ _ keeps).1
  | copied dataIndex commitId held =>
    rw [phase] at keeps
    exact ⟨(tracks _ _ keeps.1).1, (tracks _ _ keeps.1).2 _ keeps.2⟩
  | filled dataIndex commitId held =>
    rw [phase] at keeps
    rcases keeps with unknown | known
    · exact .inl ⟨unknown.1, unknown.2.1, unknown.2.2.trans defValue.symm⟩
    · exact .inr ⟨(tracks _ _ known.1).1, (tracks _ _ known.1).2 _ known.2⟩
  | created param =>
    rw [phase] at keeps
    rcases keeps with ⟨unknown, before⟩ | known
    · exact .inl ⟨⟨unknown.1, unknown.2.1, unknown.2.2.trans defValue.symm⟩, absent _ before⟩
    · exact .inr ⟨(tracks _ _ known.1).1, (tracks _ _ known.1).2 _ known.2⟩

theorem expected_of_entryAt (wellFormed : st.space.WellFormed) (accepted : Accepted st.name) :
    st.expected = ((st.space.entryAt st.index).map ParamNode.value).getD st.defValue := by
  rw [expected, readParam_eq_entryAt wellFormed accepted]
  rfl

theorem Invariant.of_returns (accepted : Accepted st.name) (wellFormed : st.space.WellFormed)
    (agrees : st.Agrees) {param : CachedParameter} {value : CString}
    (keeps : st.Keeps (.created param)) (right : value = st.expected) :
    Invariant (st.returns param (some value)) := by
  refine ⟨accepted, wellFormed, keeps, fun get member => ?_⟩
  rcases List.mem_cons.mp member with rfl | before
  · exact congrArg some right
  · exact agrees get before

theorem Invariant.of_checkEntry (accepted : Accepted st.name) (wellFormed : st.space.WellFormed)
    (agrees : st.Agrees) {param : CachedParameter}
    (index : param.dataIndex = st.index) (found : st.index ≠ 0) (fits : st.Fits)
    (known : param.dataCommitId = noCommitId ∨
      st.Tracks param.dataIndex param.dataCommitId ∧ st.Holds param.dataIndex param.paramValue ∧
        (st.updates % 65536 = 0 → st.updates = 0))
    (steps : st.checkEntry param = some next) : Invariant next := by
  obtain ⟨entry, present⟩ := entry_of_index wellFormed accepted found
  have expected : st.expected = entry.value := by
    rw [expected_of_entryAt wellFormed accepted, present]
    rfl
  have number : (entry.commitId &&& WorkSpace.paramFlagsCommitId).toNat = idOf entry.commitId := rfl
  have small : idOf entry.commitId < 65536 := by
    rw [idOf_eq]
    omega
  have room : ¬memcpyFails paramValueLenMax entry.value.length := by
    rw [Fits, present, all_some, decide_eq_true_eq] at fits
    rw [memcpyFails]
    omega
  have here : st.space.entryAt param.dataIndex = some entry := by
    rw [index]
    exact present
  have nonzero : param.dataIndex ≠ 0 := by
    rw [index]
    exact found
  rw [State.checkEntry, here] at steps
  dsimp only at steps
  split at steps
  · rename_i same
    obtain rfl := some.inj steps
    rcases known with unknown | ⟨tracks, holds, few⟩
    · rw [← number, ← same, unknown] at small
      exact absurd small (by decide)
    obtain ⟨-, -, one, is, below, counts⟩ := tracks
    obtain rfl := some.inj (is.symm.trans here)
    have none : st.updates = 0 := few (by
      have equal := congrArg BitVec.toNat same
      omega)
    refine of_returns accepted wellFormed agrees
      (.inr ⟨⟨nonzero, index, one, is, below, counts⟩, holds⟩) ?_
    exact (holds one is none).trans expected.symm
  rw [if_neg fun both => room both.2] at steps
  split at steps
  · exact absurd steps nofun
  obtain rfl := some.inj steps
  have tracks : Tracks { st with updates := 0 } param.dataIndex
      (entry.commitId &&& WorkSpace.paramFlagsCommitId) :=
    tracks_zero nonzero index here number rfl
  refine @of_returns { st with updates := 0 } accepted wellFormed agrees _ _
    (.inr ⟨tracks, fun one is _ => ?_⟩) expected.symm
  obtain rfl := some.inj (here.symm.trans is)
  rfl

section

variable (invariant : Invariant st)
include invariant

theorem Invariant.get (inOrder : st.InOrder .get)
    (steps : st.step .get = some next) : Invariant next := by
  rw [State.step] at steps
  rw [InOrder] at inOrder
  cases phase : st.cache with
  | created param =>
    have keeps := invariant.cache
    rw [phase] at steps inOrder keeps
    obtain ⟨fits, -, fewCommits, fewUpdates⟩ := inOrder
    dsimp only at steps
    rw [check] at steps
    split at steps
    · rename_i zero
      rcases keeps with ⟨⟨-, noId, default⟩, absent⟩ | ⟨tracks, -⟩
      case inr => exact absurd zero tracks.1
      have missing : st.index = 0 → st.expected = st.defValue := by
        intro missing
        rw [expected_of_entryAt invariant.wellFormed invariant.accepted, missing]
        rfl
      split at steps
      · rename_i same
        obtain rfl := some.inj steps
        have none : st.commits = 0 := by
          refine fewCommits zero ?_
          have equal := congrArg BitVec.toNat absent.1
          rw [← same, toNat_add, toNat_ofNat] at equal
          omega
        exact of_returns invariant.accepted invariant.wellFormed invariant.agrees
          (.inl ⟨⟨zero, noId, default⟩, absent⟩) (default.trans (missing (absent.2 none)).symm)
      · by_cases found : st.index = 0
        · have nothing : st.space.entryAt st.index = none := by
            rw [found, WorkSpace.entryAt_zero]
          rw [State.checkEntry] at steps
          rw [nothing] at steps
          obtain rfl := some.inj steps
          refine @of_returns { st with commits := 0 } invariant.accepted invariant.wellFormed
            invariant.agrees _ _ (.inl ⟨⟨found, noId, default⟩, ?_, fun _ => found⟩)
            (default.trans (missing found).symm)
          exact (add_zero _).symm
        · exact @of_checkEntry { st with commits := 0 } next invariant.accepted
            invariant.wellFormed invariant.agrees
            ⟨st.index, param.dataCommitId, st.space.commitId, param.paramValue⟩ rfl found fits
            (.inl noId) steps
    · rename_i nonzero
      rcases keeps with ⟨unknown, -⟩ | ⟨tracks, holds⟩
      · exact absurd unknown.1 nonzero
      · exact of_checkEntry invariant.accepted invariant.wellFormed invariant.agrees tracks.2.1
          (tracks.2.1 ▸ nonzero) fits (.inr ⟨tracks, holds, fewUpdates nonzero⟩) steps
  | _ =>
    rw [phase] at steps
    exact absurd steps nofun

theorem Invariant.create {granted : Bool}
    (steps : st.step (.create granted) = some next) : Invariant next := by
  rw [State.step, ite_none_right_eq_some] at steps
  obtain ⟨-, steps⟩ := steps
  split at steps
  · obtain rfl := some.inj steps
    refine ⟨invariant.accepted, invariant.wellFormed, ?_, invariant.agrees⟩
    rw [lookUp]
    split
    · exact ⟨‹_›, rfl⟩
    split
    · exact .inl ⟨rfl, rfl, rfl⟩
    · trivial
  · obtain rfl := some.inj steps
    exact invariant

theorem Invariant.proceed (inOrder : st.InOrder .proceed)
    (steps : st.step .proceed = some next) : Invariant next := by
  rw [State.step, State.proceed.eq_def] at steps
  rw [InOrder] at inOrder
  have keeps := invariant.cache
  have fails : Invariant { st with cache := .none } :=
    ⟨invariant.accepted, invariant.wellFormed, trivial, invariant.agrees⟩
  cases phase : st.cache with
  | none =>
    rw [phase] at steps
    exact absurd steps nofun
  | found dataIndex =>
    rw [phase] at steps keeps
    obtain ⟨found, index⟩ := keeps
    dsimp only at steps
    split at steps
    · obtain rfl := some.inj steps
      exact fails
    rename_i entry present
    split at steps
    · obtain rfl := some.inj steps
      exact invariant
    rename_i id reads
    obtain rfl := some.inj steps
    exact ⟨invariant.accepted, invariant.wellFormed,
      tracks_zero found index present (toNat_of_readCommitId reads).1 rfl, invariant.agrees⟩
  | begun dataIndex commitId length =>
    rw [phase] at steps keeps
    dsimp only at steps
    split at steps
    · obtain rfl := some.inj steps
      exact fails
    rename_i entry present
    split at steps
    · obtain rfl := some.inj steps
      exact fails
    obtain rfl := some.inj steps
    refine ⟨invariant.accepted, invariant.wellFormed, ⟨keeps, fun one is _ => ?_⟩, invariant.agrees⟩
    obtain rfl := some.inj (present.symm.trans is)
    rfl
  | copied dataIndex commitId held =>
    rw [phase] at steps keeps
    dsimp only at steps
    split at steps
    · obtain rfl := some.inj steps
      exact fails
    rename_i entry present
    split at steps
    · obtain rfl := some.inj steps
      exact invariant
    rename_i id reads
    split at steps
    · obtain rfl := some.inj steps
      exact ⟨invariant.accepted, invariant.wellFormed, .inr keeps, invariant.agrees⟩
    obtain rfl := some.inj steps
    exact ⟨invariant.accepted, invariant.wellFormed,
      tracks_zero keeps.1.1 keeps.1.2.1 present (toNat_of_readCommitId reads).1 rfl,
      invariant.agrees⟩
  | filled dataIndex commitId held =>
    rw [phase] at steps keeps inOrder
    obtain rfl := some.inj steps
    refine ⟨invariant.accepted, invariant.wellFormed, ?_, invariant.agrees⟩
    rcases keeps with unknown | known
    · refine .inl ⟨unknown, ?_, fun _ => inOrder unknown.1⟩
      exact (add_zero _).symm
    · exact .inr known
  | created param =>
    rw [phase] at steps
    exact absurd steps nofun

theorem Invariant.step {action : Action} (inOrder : st.InOrder action)
    (steps : st.step action = some next) : Invariant next := by
  cases action with
  | write name value onlyAdd => exact invariant.write steps
  | create granted => exact invariant.create steps
  | proceed => exact invariant.proceed inOrder steps
  | get => exact invariant.get inOrder steps

end

theorem Invariant.of_initial (initial : st.Initial) : Invariant st := by
  obtain ⟨accepted, cache, got, written, reached⟩ := initial
  refine ⟨accepted, reached_wellFormed reached, ?_, ?_⟩
  · rw [cache]
    trivial
  · rw [Agrees, got]
    exact nofun

end State

/-- As long as a cache that does not know the parameter is finished before there is one, values fit
into the buffer and commits are not missed, every get returns what an uncached read gives, or the
default value. -/
theorem cached_agrees {st : State} (reached : Reachable State.step State.InOrder State.Initial st) :
    st.Agrees :=
  (reached.invariant (fun _ => State.Invariant.of_initial)
    fun _ _ _ _ holds inOrder steps => holds.step inOrder steps).agrees

/-- Calls for a name with a default value, after an area of one KiB has been made a workspace. -/
def runInKiB (test : State → Action → Bool) (name defValue : CString) (actions : List Action) :
    Option State :=
  (initParamWorkSpace 1024).bind fun space =>
    execute State.step test ⟨true, name, defValue, space, .none, 0, 0, []⟩ actions

theorem runInKiB_reached {condition : State → Action → Prop} {test : State → Action → Bool}
    (sound : ∀ st action, test st action = true → condition st action) {name defValue : CString}
    (accepted : Accepted name) {actions : List Action} {last : State}
    (result : runInKiB test name defValue actions = some last) :
    Reachable State.step condition State.Initial last := by
  obtain ⟨space, made, runs⟩ := bind_eq_some_iff.mp result
  exact .of_execute sound actions (.start ⟨accepted, rfl, rfl, [], .start ⟨1024, made, rfl⟩⟩) runs

/-- A parameter that is created and updated after its cache. -/
def sampleActions : List Action :=
  [.create true, .proceed, .get, .write "a.b".toList "1".toList false, .get,
    .write "c".toList "x".toList false, .get, .write "a.b".toList "2".toList false, .get]

theorem cached_agrees_sample : ∃ st,
    runInKiB (fun st action => decide (st.InOrder action)) "a.b".toList "0".toList sampleActions =
      some st ∧ st.Agrees := by
  have runs : (runInKiB (fun st action => decide (st.InOrder action)) "a.b".toList "0".toList
      sampleActions).isSome = true := by decide
  obtain ⟨st, result⟩ := Option.isSome_iff_exists.mp runs
  exact ⟨st, result, cached_agrees
    (runInKiB_reached (fun _ _ => of_decide_eq_true) (by decide) result)⟩

/-- A parameter that is created between the look-up of its cache and the commit id that the cache
takes from the workspace is not found. -/
theorem cached_disagrees : ¬∀ st, Reachable State.step (fun _ _ => True) State.Initial st →
    st.Agrees := by
  intro all
  have runs : (runInKiB (fun _ _ => true) "a.b".toList "0".toList
      [.create true, .write "a.b".toList "1".toList false, .proceed, .get]).map State.got =
        some [(some "0".toList, "1".toList)] := by decide
  obtain ⟨st, result, got⟩ := Option.map_eq_some_iff.mp runs
  have agrees := all st (runInKiB_reached (fun _ _ _ => trivial) (by decide) result)
  exact absurd (agrees _ (got ▸ List.mem_cons_self)) (by decide)

end TowerSafe.Cached
