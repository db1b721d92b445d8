/-
This file embeds the handles of parameters: a bucket of the map of workspaces in the upper byte, and
a global index of a node below it. It says exactly which handles lead back to the node they were
made for.
-/

import TowerSafe.Param.HashMap
import TowerSafe.Param.WorkSpace

namespace TowerSafe.Handle

open Param HashMap

/-! ### Workspaces -/

def generateKeyHasCode (buff : CString) : Int32 :=
  buff.foldl (fun code char => code + (Int32.ofInt char.toNat - Int32.ofInt 'A'.toNat)) 0

def strcmp : CString → CString → Int32
  | [], [] => 0
  | [], _ :: _ => -1
  | _ :: _, [] => 1
  | char :: rest, other :: others =>
      if char = other then strcmp rest others else if char < other then -1 else 1

/-- A `WorkSpace`, with what the header of its area says about its indexes. -/
structure WorkSpace where
  fileName : CString
  startIndex : UInt32
  dataSize : UInt32
  deriving DecidableEq

/-- `HASH_BUTT`, in a build with SELinux or without it. -/
def hashButt (selinux : Bool) : Nat :=
  if selinux then 32 else 1

/-- The map that `InitParamWorkSpace` creates for the workspaces. -/
def workSpaceInfo (selinux : Bool) : HashInfo WorkSpace CString where
  nodeCompare workSpace1 workSpace2 := strcmp workSpace1.fileName workSpace2.fileName
  keyCompare workSpace1 key := strcmp workSpace1.fileName key
  nodeHash workSpace := generateKeyHasCode workSpace.fileName
  keyHash := generateKeyHasCode
  maxBucket := hashButt selinux

/-- The workspaces of a process: the map, `workSpaceList`, and `startIndex` of `InitWorkSpace_`. -/
structure ParamWorkSpace where
  workSpaceHashHandle : HashTab WorkSpace
  workSpaceList : List WorkSpace
  startIndex : UInt32

/-- `WORKSPACE_NAME_NORMAL` in a build without SELinux. -/
def workSpaceNameNormal : CString := "param_storage".toList

def sizeofParamTrieHeader : UInt32 := 48

def filenameLenMax : Nat := 255

def paramStoragePath : CString := "/dev/__parameters__".toList

/-- The arguments of `AddWorkSpace`, with whether memory can be had and mapped, and the header that
a process that only reads finds in the shared area. -/
structure AddArguments where
  name : CString
  onlyRead : Bool
  spaceSize : UInt32
  memory : Bool
  shared : UInt32 × UInt32
  deriving DecidableEq

/-- `InitWorkSpace_`: the workspace, and the next `startIndex`. -/
def initWorkSpace (arguments : AddArguments) (fileName : CString) (startIndex : UInt32) :
    Option (WorkSpace × UInt32) :=
  if ¬ sizeofParamTrieHeader < arguments.spaceSize then none
  else if filenameLenMax ≤ paramStoragePath.length + 1 + fileName.length then none
  else if arguments.memory = false then none
  else if arguments.onlyRead then
    some (⟨fileName, arguments.shared.1, arguments.shared.2⟩, startIndex)
  else
    some (⟨fileName, startIndex, arguments.spaceSize - sizeofParamTrieHeader⟩,
      startIndex + arguments.spaceSize)

/-- `AddWorkSpace`, with whether it returns zero, with enough fuel for the map or without a
result. -/
def addWorkSpace (selinux : Bool) (fuel : Nat) (space : ParamWorkSpace) (arguments : AddArguments) :
    Option (ParamWorkSpace × Bool) :=
  let realName := if selinux then arguments.name else workSpaceNameNormal
  (ohHashMapGet (workSpaceInfo selinux) space.workSpaceHashHandle fuel realName).bind fun
    | some _ => some (space, true)
    | none =>
        match initWorkSpace arguments realName space.startIndex with
        | none => some (space, false)
        | some (workSpace, startIndex) =>
            let cleared := { space.workSpaceHashHandle with
              next := Function.update space.workSpaceHashHandle.next workSpace none }
            (ohHashMapAdd (workSpaceInfo selinux) cleared fuel workSpace).map fun
              | (tab, 0) => (⟨tab, space.workSpaceList ++ [workSpace], startIndex⟩, true)
              | (tab, _) => (⟨tab, space.workSpaceList, startIndex⟩, false)

/-- What workspaces a process can have. -/
inductive Reached (selinux : Bool) : ParamWorkSpace → Prop where
  | init {tab : HashTab WorkSpace} (created : tab.Created) : Reached selinux ⟨tab, [], 0⟩
  | add {space next : ParamWorkSpace} {arguments : AddArguments} {fuel : Nat} {ret : Bool}
      (reached : Reached selinux space)
      (added : addWorkSpace selinux fuel space arguments = some (next, ret)) :
      Reached selinux next

/-! ### Nodes -/

/-- The offsets that a workspace hands out for nodes of some lengths, from `currOffset` on, as
`AllocateParamTrieNode`, `AddParamNode` and `AddParamSecurityNode` do. -/
def allocate (dataSize : UInt32) : UInt32 → List UInt32 → List UInt32
  | _, [] => []
  | currOffset, len :: rest =>
      if currOffset + len < dataSize then currOffset :: allocate dataSize (currOffset + len) rest
      else allocate dataSize currOffset rest

/-- The offset of some node of a workspace; `PARAM_ALIGN` makes every length a multiple of four. -/
def Allocated (workSpace : WorkSpace) (offset : UInt32) : Prop :=
  ∃ lens : List UInt32, (∀ len ∈ lens, len.toNat % 4 = 0) ∧
    offset ∈ allocate workSpace.dataSize 0 lens

/-- `GetTrieNode`: the offset of the node, if there is one. -/
def getTrieNode (workSpace : WorkSpace) (offset : UInt32) : Option UInt32 :=
  if offset = 0 ∨ offset > workSpace.dataSize then none else some offset

/-! ### Handles -/

def getParamHandle (selinux : Bool) (workSpace : WorkSpace) (index : UInt32) : UInt32 :=
  let hashCode := (generateKeyHasCode workSpace.fileName).toUInt32
  let handle := (hashCode % UInt32.ofNat (hashButt selinux)) <<< 24
  handle ||| (index + workSpace.startIndex)

/-- `CompareIndex` finds the index in the range of the workspace. -/
def compareIndex (index : UInt32) (workSpace : WorkSpace) : Bool :=
  workSpace.startIndex ≤ index && index < workSpace.startIndex + workSpace.dataSize

/-- `GetTrieNodeByHandle`: the workspace and the offset of the node. -/
def getTrieNodeByHandle (selinux : Bool) (fuel : Nat) (space : ParamWorkSpace) (handle : UInt32) :
    Option (Option (WorkSpace × UInt32)) :=
  if handle = 0xffffffff then some none
  else
    let hashCode := (handle >>> 24) &&& 0x000000ff
    let index := handle &&& 0x00ffffff
    (ohHashMapFind (workSpaceInfo selinux) space.workSpaceHashHandle fuel hashCode.toNat
        (compareIndex index)).map fun
      | none => none
      | some workSpace =>
          let index := index - workSpace.startIndex
          if index.toNat % 4 = 0 then
            (getTrieNode workSpace index).map fun offset => (workSpace, offset)
          else none

def LeadsBack (selinux : Bool) (space : ParamWorkSpace) (workSpace : WorkSpace) (offset : UInt32) :
    Prop :=
  ∃ enough, ∀ fuel, enough ≤ fuel →
    getTrieNodeByHandle selinux fuel space (getParamHandle selinux workSpace offset) =
      some (some (workSpace, offset))

/-- The nodes whose handles lead back: not the one at offset zero, with an index of 24 bits, in a
workspace whose name gives one bucket with and without its sign, and that is the last one added to
the bucket of those that have the index in their range. -/
structure Returns (selinux : Bool) (space : ParamWorkSpace) (workSpace : WorkSpace)
    (offset : UInt32) : Prop where
  some_ : offset ≠ 0
  small : workSpace.startIndex.toNat + offset.toNat < 2 ^ 24
  bucket : (workSpaceInfo selinux).hashIndex (generateKeyHasCode workSpace.fileName) =
    some ((generateKeyHasCode workSpace.fileName).toUInt32.toNat % hashButt selinux)
  last : space.workSpaceList.reverse.find? (fun other =>
    (workSpaceInfo selinux).hashIndex (generateKeyHasCode other.fileName) =
        (workSpaceInfo selinux).hashIndex (generateKeyHasCode workSpace.fileName) &&
      compareIndex (offset + workSpace.startIndex) other) = some workSpace

/-! ### What a process has -/

theorem strcmp_eq_zero_iff {name other : CString} : strcmp name other = 0 ↔ name = other := by
  induction name generalizing other with
  | nil =>
    cases other with
    | nil => exact iff_of_true rfl rfl
    | cons char rest => exact iff_of_false (by rw [strcmp]; decide) nofun
  | cons char rest hypothesis =>
    cases other with
    | nil => exact iff_of_false (by rw [strcmp]; decide) nofun
    | cons first others =>
      rw [strcmp, List.cons_eq_cons]
      split
      · rename_i same
        rw [hypothesis, and_iff_right same]
      rename_i differs
      refine iff_of_false ?_ fun both => differs both.1
      split
      · decide
      · decide

theorem workSpaceInfo_consistent (selinux : Bool) :
    Consistent (workSpaceInfo selinux) WorkSpace.fileName where
  nodeCompare _ _ := strcmp_eq_zero_iff
  keyCompare _ _ := strcmp_eq_zero_iff
  nodeHash _ := rfl

/-- The workspaces of a bucket, the last one added first. -/
def bucketOf (selinux : Bool) (space : ParamWorkSpace) (hashCode : Nat) : List WorkSpace :=
  space.workSpaceList.reverse.filter fun other =>
    (workSpaceInfo selinux).hashIndex (generateKeyHasCode other.fileName) = some hashCode

/-- The map holds the workspaces of the list, each in the bucket of its name. -/
def Mapped (selinux : Bool) (space : ParamWorkSpace) : Prop :=
  ∃ contents, Represents (workSpaceInfo selinux) WorkSpace.fileName space.workSpaceHashHandle
    contents (bucketOf selinux space)

theorem fileName_of_initWorkSpace {arguments : AddArguments} {fileName : CString}
    {startIndex after : UInt32} {workSpace : WorkSpace}
    (made : initWorkSpace arguments fileName startIndex = some (workSpace, after)) :
    workSpace.fileName = fileName := by
  unfold initWorkSpace at made
  split at made
  · cases made
  split at made
  · cases made
  split at made
  · cases made
  split at made
  · cases made
    rfl
  · cases made
    rfl

theorem bucketOf_append {selinux : Bool} {tab : HashTab WorkSpace} {list : List WorkSpace}
    {startIndex after : UInt32} {before : HashTab WorkSpace} {workSpace : WorkSpace}
    {hashCode : Nat}
    (isHash : (workSpaceInfo selinux).hashIndex (generateKeyHasCode workSpace.fileName) =
      some hashCode) : bucketOf selinux ⟨tab, list ++ [workSpace], after⟩ =
      Function.update (bucketOf selinux ⟨before, list, startIndex⟩) hashCode
        (workSpace :: bucketOf selinux ⟨before, list, startIndex⟩ hashCode) := by
  funext index
  unfold bucketOf
  rw [List.reverse_append, List.reverse_singleton, List.singleton_append, List.filter_cons]
  by_cases same : index = hashCode
  · subst same
    rw [Function.update_self, isHash, if_pos (decide_eq_true rfl)]
  · rw [Function.update_of_ne same, isHash, if_neg]
    exact fun equal => same (Option.some.inj (of_decide_eq_true equal)).symm

theorem Reached.mapped {selinux : Bool} {space : ParamWorkSpace} (reached : Reached selinux space) :
    Mapped selinux space := by
  induction reached with
  | init created => exact ⟨_, represents_created created⟩
  | @add space next arguments fuel ret reached added hypothesis =>
    obtain ⟨contents, represents⟩ := hypothesis
    have consistent := workSpaceInfo_consistent selinux
    obtain ⟨found, search, rest⟩ := Option.bind_eq_some_iff.mp added
    have isFound := eq_of_ohHashMapGet consistent represents search
    cases found with
    | some workSpace =>
      cases rest
      exact ⟨contents, represents⟩
    | none =>
      cases made : initWorkSpace arguments
          (if selinux then arguments.name else workSpaceNameNormal) space.startIndex with
      | none =>
        rw [made] at rest
        cases rest
        exact ⟨contents, represents⟩
      | some both =>
        obtain ⟨workSpace, startIndex⟩ := both
        rw [made] at rest
        obtain ⟨⟨tab, code⟩, isAdded, isNext⟩ := Option.map_eq_some_iff.mp rest
        have absent : contents workSpace.fileName = none :=
          (fileName_of_initWorkSpace made).symm ▸ isFound.symm
        obtain ⟨rfl, hashCode, isHash, represents'⟩ := represents_of_ohHashMapAdd consistent
          (represents.clear absent) absent (Function.update_self ..) isAdded
        cases isNext
        refine ⟨Function.update contents workSpace.fileName (some workSpace), ?_⟩
        rw [@bucketOf_append _ _ _ space.startIndex _ space.workSpaceHashHandle _ _ isHash]
        exact represents'

/-! ### Offsets and indexes -/

theorem allocate_spec {dataSize offset : UInt32} {lens : List UInt32} :
    ∀ {currOffset : UInt32}, (∀ len ∈ lens, len.toNat % 4 = 0) → currOffset.toNat % 4 = 0 →
      (currOffset = 0 ∨ currOffset < dataSize) → offset ∈ allocate dataSize currOffset lens →
      offset.toNat % 4 = 0 ∧ offset < dataSize := by
  induction lens with
  | nil => exact fun _ _ _ member => by cases member
  | cons len rest hypothesis =>
    intro currOffset aligned currAligned inside member
    have restAligned : ∀ len ∈ rest, len.toNat % 4 = 0 :=
      fun other inRest => aligned other (.tail _ inRest)
    have lenAligned := aligned len (.head _)
    unfold allocate at member
    split at member
    · rename_i fits
      rcases List.mem_cons.mp member with rfl | later
      · refine ⟨currAligned, inside.elim (fun zero => ?_) id⟩
        rw [zero] at fits ⊢
        exact Nat.lt_of_le_of_lt (Nat.zero_le _) fits
      · refine hypothesis restAligned ?_ (.inr fits) later
        rw [UInt32.toNat_add]
        omega
    · exact hypothesis restAligned currAligned inside member

theorem Allocated.spec {workSpace : WorkSpace} {offset : UInt32}
    (allocated : Allocated workSpace offset) :
    offset.toNat % 4 = 0 ∧ offset < workSpace.dataSize := by
  obtain ⟨lens, aligned, member⟩ := allocated
  exact allocate_spec aligned rfl (.inl rfl) member

variable {bucket index : UInt32}

theorem toNat_pack (narrow : bucket.toNat < 2 ^ 8) (small : index.toNat < 2 ^ 24) :
    (bucket <<< 24 ||| index).toNat = bucket.toNat * 2 ^ 24 + index.toNat := by
  have shifted : (bucket <<< 24).toNat = bucket.toNat <<< 24 := by
    rw [UInt32.toNat_shiftLeft]
    refine Nat.mod_eq_of_lt ?_
    rw [show (24 : UInt32).toNat % 32 = 24 from rfl]
    omega
  rw [UInt32.toNat_or, shifted, ← Nat.shiftLeft_add_eq_or_of_lt small, Nat.shiftLeft_eq]

theorem unpack_index (narrow : bucket.toNat < 2 ^ 8)
    (small : index.toNat < 2 ^ 24) : (bucket <<< 24 ||| index) &&& 0x00ffffff = index := by
  refine UInt32.toNat_inj.mp ?_
  rw [UInt32.toNat_and, toNat_pack narrow small]
  rw [show (0x00ffffff : UInt32).toNat = 2 ^ 24 - 1 from rfl, Nat.and_two_pow_sub_one_eq_mod]
  omega

theorem unpack_bucket (narrow : bucket.toNat < 2 ^ 8) (small : index.toNat < 2 ^ 24) :
    ((bucket <<< 24 ||| index) >>> 24 &&& 0x000000ff).toNat = bucket.toNat := by
  rw [UInt32.toNat_and, UInt32.toNat_shiftRight, toNat_pack narrow small]
  rw [show (0x000000ff : UInt32).toNat = 2 ^ 8 - 1 from rfl, Nat.and_two_pow_sub_one_eq_mod]
  rw [show (24 : UInt32).toNat % 32 = 24 from rfl]
  omega

theorem index_lt (handle : UInt32) : (handle &&& 0x00ffffff).toNat < 2 ^ 24 := by
  exact Nat.and_lt_two_pow _ (by decide)

/-! ### Handles that lead back -/

theorem hashButt_pos (selinux : Bool) : 0 < hashButt selinux ∧ hashButt selinux < 2 ^ 8 := by
  cases selinux <;> decide

theorem toNat_bucket (selinux : Bool) (hashCode : UInt32) :
    (hashCode % UInt32.ofNat (hashButt selinux)).toNat = hashCode.toNat % hashButt selinux := by
  cases selinux <;> rfl

theorem toNat_bucket_lt (selinux : Bool) (hashCode : UInt32) :
    (hashCode % UInt32.ofNat (hashButt selinux)).toNat < hashButt selinux := by
  rw [toNat_bucket]
  exact Nat.mod_lt _ (hashButt_pos selinux).1

theorem find_bucketOf {selinux : Bool} {space : ParamWorkSpace} {hashCode : Nat} :
    (bucketOf selinux space hashCode).find? (compareIndex index) =
      space.workSpaceList.reverse.find? fun other =>
        (workSpaceInfo selinux).hashIndex (generateKeyHasCode other.fileName) = some hashCode &&
          compareIndex index other := by
  unfold bucketOf
  rw [List.find?_filter]
  simp only [Bool.decide_and, Bool.decide_eq_true]

theorem getTrieNodeByHandle_eq {selinux : Bool} {space : ParamWorkSpace} {handle : UInt32}
    {fuel : Nat} (reached : Reached selinux space)
    (enough : (bucketOf selinux space (handle >>> 24 &&& 0x000000ff).toNat).length < fuel) :
    getTrieNodeByHandle selinux fuel space handle =
      if handle = 0xffffffff ∨ ¬ (handle >>> 24 &&& 0x000000ff).toNat < hashButt selinux then
        some none else some ((bucketOf selinux space (handle >>> 24 &&& 0x000000ff).toNat).find?
            (compareIndex (handle &&& 0x00ffffff)) |>.bind fun workSpace =>
          if ((handle &&& 0x00ffffff) - workSpace.startIndex).toNat % 4 = 0 then
            (getTrieNode workSpace ((handle &&& 0x00ffffff) - workSpace.startIndex)).map
              fun offset => (workSpace, offset) else none) := by
  obtain ⟨contents, represents⟩ := reached.mapped
  unfold getTrieNodeByHandle ohHashMapFind
  dsimp only
  split
  · rename_i minusOne
    rw [if_pos (.inl minusOne)]
  rename_i proper
  rw [show (workSpaceInfo selinux).maxBucket = hashButt selinux from rfl]
  split
  · rename_i inside
    rw [if_neg (by simp only [proper, inside, not_true, or_self, not_false_eq_true]),
      findNode_of_threads (represents.threads _) enough]
    cases (bucketOf selinux space (handle >>> 24 &&& 0x000000ff).toNat).find?
        (compareIndex (handle &&& 0x00ffffff)) with
    | none => rfl
    | some workSpace => rfl
  · rename_i outside
    rw [if_pos (.inr outside)]
    rfl

variable {selinux : Bool} {space : ParamWorkSpace} {workSpace other : WorkSpace}
  {offset place : UInt32}

theorem no_wrap (claims : compareIndex (offset + workSpace.startIndex) workSpace = true) :
    (offset + workSpace.startIndex).toNat = workSpace.startIndex.toNat + offset.toNat := by
  have lower := of_decide_eq_true (((Bool.and_eq_true _ _).mp claims).1)
  rw [UInt32.le_iff_toNat_le, UInt32.toNat_add] at lower
  have offsetBelow := offset.toNat_lt
  rw [UInt32.toNat_add]
  omega

theorem returns_of_leadsBack (reached : Reached selinux space)
    (back : LeadsBack selinux space workSpace offset) : Returns selinux space workSpace offset := by
  obtain ⟨contents, represents⟩ := reached.mapped
  obtain ⟨enough, result⟩ := back
  have whole := @getTrieNodeByHandle_eq _ _ (getParamHandle selinux workSpace offset) _ reached
    (Nat.lt_of_lt_of_le (Nat.lt_succ_self _) (Nat.le_max_right enough _))
  rw [result _ (Nat.le_max_left _ _)] at whole
  split at whole
  · cases whole
  obtain ⟨found, isFound, rest⟩ := Option.bind_eq_some_iff.mp (Option.some.inj whole).symm
  split at rest
  · obtain ⟨reached', isNode, same⟩ := Option.map_eq_some_iff.mp rest
    obtain ⟨rfl, rfl⟩ := Prod.mk.inj same
    unfold getTrieNode at isNode
    split at isNode
    · cases isNode
    rename_i proper
    have isOffset := Option.some.inj isNode
    have isIndex : getParamHandle selinux found reached' &&& 0x00ffffff =
        reached' + found.startIndex :=
      (UInt32.sub_add_cancel _ _).symm.trans (congrArg (· + found.startIndex) isOffset)
    have small := index_lt (getParamHandle selinux found reached')
    have narrow := Nat.lt_trans
      (toNat_bucket_lt selinux (generateKeyHasCode found.fileName).toUInt32)
      (hashButt_pos selinux).2
    rw [isIndex] at small isFound
    have isBucket := unpack_bucket narrow small
    unfold getParamHandle at isFound
    rw [isBucket, toNat_bucket] at isFound
    have inBucket := represents.home _ _ (List.mem_of_find?_eq_some isFound)
    have claims := List.find?_some isFound
    refine ⟨fun zero => proper (.inl (isOffset.trans zero)), ?_, inBucket, ?_⟩
    · rw [← no_wrap claims]
      exact small
    · rw [find_bucketOf] at isFound
      rw [show (workSpaceInfo selinux).hashIndex (generateKeyHasCode found.fileName) = _ from
        inBucket]
      exact isFound
  · cases rest

theorem leadsBack_of_returns (reached : Reached selinux space)
    (allocated : Allocated workSpace offset) (returns : Returns selinux space workSpace offset) :
    LeadsBack selinux space workSpace offset := by
  obtain ⟨aligned, inside⟩ := allocated.spec
  have found := returns.last
  have both := List.find?_some found
  have claims := ((Bool.and_eq_true _ _).mp both).2
  have small : (offset + workSpace.startIndex).toNat < 2 ^ 24 := by
    rw [no_wrap claims]
    exact returns.small
  have narrow := Nat.lt_trans
    (toNat_bucket_lt selinux (generateKeyHasCode workSpace.fileName).toUInt32)
    (hashButt_pos selinux).2
  have isBucket : (getParamHandle selinux workSpace offset >>> 24 &&& 0x000000ff).toNat =
      (generateKeyHasCode workSpace.fileName).toUInt32.toNat % hashButt selinux :=
    (unpack_bucket narrow small).trans (toNat_bucket _ _)
  have isIndex : getParamHandle selinux workSpace offset &&& 0x00ffffff =
      offset + workSpace.startIndex := unpack_index narrow small
  have proper : getParamHandle selinux workSpace offset ≠ 0xffffffff := by
    intro same
    rw [same] at isBucket
    have below := Nat.mod_lt (generateKeyHasCode workSpace.fileName).toUInt32.toNat
      (hashButt_pos selinux).1
    rw [← isBucket] at below
    revert below
    cases selinux <;> decide
  refine ⟨(bucketOf selinux space (getParamHandle selinux workSpace offset >>> 24 &&&
    0x000000ff).toNat).length + 1, fun fuel enough => ?_⟩
  rw [getTrieNodeByHandle_eq reached enough, if_neg, isIndex, isBucket, find_bucketOf,
    ← returns.bucket, found, Option.bind_some, UInt32.add_sub_cancel, if_pos aligned]
  · unfold getTrieNode
    rw [if_neg]
    · rfl
    · rintro (zero | outside)
      · exact returns.some_ zero
      · rw [UInt32.lt_iff_toNat_lt] at inside
        rw [gt_iff_lt, UInt32.lt_iff_toNat_lt] at outside
        omega
  · rintro (minusOne | outside)
    · exact proper minusOne
    · rw [isBucket] at outside
      exact outside (Nat.mod_lt _ (hashButt_pos selinux).1)

/-- Two nodes have handles of their own that lead back to them exactly when both are nodes whose
handles lead back. -/
theorem handles_iff (reached : Reached selinux space) (allocated : Allocated workSpace offset)
    (otherAllocated : Allocated other place) (differs : (workSpace, offset) ≠ (other, place)) :
    (LeadsBack selinux space workSpace offset ∧ LeadsBack selinux space other place ∧
        getParamHandle selinux workSpace offset ≠ getParamHandle selinux other place) ↔
      Returns selinux space workSpace offset ∧ Returns selinux space other place := by
  constructor
  · rintro ⟨first, second, -⟩
    exact ⟨returns_of_leadsBack reached first, returns_of_leadsBack reached second⟩
  · rintro ⟨first, second⟩
    have back := leadsBack_of_returns reached allocated first
    have back' := leadsBack_of_returns reached otherAllocated second
    refine ⟨back, back', fun same => ?_⟩
    obtain ⟨enough, result⟩ := back
    obtain ⟨enough', result'⟩ := back'
    have one := result _ (Nat.le_max_left enough enough')
    rw [same, result' _ (Nat.le_max_right enough enough')] at one
    exact differs (Option.some.inj (Option.some.inj one)).symm

/-- What adding one workspace of a kilobyte makes of a process without any. -/
def sampleSpace (name : CString) : Option (ParamWorkSpace × Bool) :=
  addWorkSpace true 4 ⟨⟨fun _ => none, fun _ => none⟩, [], 0⟩ ⟨name, false, 1024, true, 0, 0⟩

theorem handles_iff_sample : ∃ space, (sampleSpace ['A']).map Prod.fst = some space ∧
    ((LeadsBack true space ⟨['A'], 0, 976⟩ 28 ∧ LeadsBack true space ⟨['A'], 0, 976⟩ 56 ∧
        getParamHandle true ⟨['A'], 0, 976⟩ 28 ≠ getParamHandle true ⟨['A'], 0, 976⟩ 56) ↔
      Returns true space ⟨['A'], 0, 976⟩ 28 ∧ Returns true space ⟨['A'], 0, 976⟩ 56) := by
  have runs : (sampleSpace ['A']).isSome = true := by decide
  obtain ⟨⟨space, ret⟩, added⟩ := Option.isSome_iff_exists.mp runs
  refine ⟨space, by rw [added]; rfl, ?_⟩
  exact handles_iff (.add (.init fun _ => rfl) added) ⟨[28, 28], by simp, by simp [allocate]⟩
    ⟨[28, 28, 28], by simp, by simp [allocate]⟩ (by decide)

/-- The hash of the name `0` is negative: the handle names another bucket than the one in which the
map has the workspace. -/
theorem other_bucket : ∃ space, (sampleSpace ['0']).map Prod.fst = some space ∧
    Allocated ⟨['0'], 0, 976⟩ 28 ∧ ¬ LeadsBack true space ⟨['0'], 0, 976⟩ 28 := by
  have runs : (sampleSpace ['0']).isSome = true := by decide
  obtain ⟨⟨space, ret⟩, added⟩ := Option.isSome_iff_exists.mp runs
  refine ⟨space, by rw [added]; rfl, ⟨[28, 28], by simp, by simp [allocate]⟩, fun back => ?_⟩
  exact absurd (returns_of_leadsBack (.add (.init fun _ => rfl) added) back).bucket (by decide)

end TowerSafe.Handle
