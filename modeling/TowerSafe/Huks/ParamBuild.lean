/-
This file embeds how `hks_param.c` adds parameters to a set and builds it. Parameters that are
added, built, sent and received are the same exactly when the additions fit into 32 bits, the set is
not too large, its last blob has bytes, and there is memory.
-/

import TowerSafe.Huks.ParamSet

namespace TowerSafe.ParamSet

open Library Option
open List

/-! ### From parameters to bytes -/

section Build

variable {abi : Abi}

/-- A `struct HksParamSet` to which parameters are added: its address, what it has, and the memory
behind the parameters. -/
structure HksParamSet (abi : Abi) where
  address : Nat
  paramSetSize : BitVec 32
  params : List (HksParam abi)
  spare : Bytes

def HksParamSet.bytes (set : HksParamSet abi) : Bytes :=
  (Bytes.ofNat 4 set.paramSetSize.toNat ++ Bytes.ofNat 4 set.params.length) ++
    (paramBytes set.params ++ set.spare)

def hksInitParamSet (heap : Heap abi) : Except Failure (HksParamSet abi) :=
  match heap.malloc .init defaultParamSetSize with
  | none => .error .mallocFail
  | some address =>
      .ok ⟨address, .ofNat 32 headerSize, [],
        (heap.block .init defaultParamSetSize).drop headerSize⟩

/-- `CheckBeforeAddParams`, for a set that is not `NULL`. -/
def checkBeforeAddParams (set : HksParamSet abi) (params : Option (List (HksParam abi))) :
    Option Failure :=
  match params with
  | none => some .invalidArgument
  | some params =>
      if set.paramSetSize.toNat > paramSetMaxSize ∨ params.length > abi.defaultParamCnt ∨
          set.params.length > abi.defaultParamCnt - params.length then some .invalidArgument
      else if params.any fun param => param.hasBlob && param.blobData == 0 then
        some .invalidArgument
      else none

/-- The loop of `HksAddParams`. -/
def addLoop (set : HksParamSet abi) : List (HksParam abi) → HksParamSet abi × Option Failure
  | [] => (set, none)
  | param :: rest =>
      let size := set.paramSetSize + .ofNat 32 abi.paramSize
      if param.hasBlob then
        if isAdditionOverflow size param.blobSize then
          ({ set with paramSetSize := size - .ofNat 32 abi.paramSize }, some .invalidArgument)
        else
          addLoop ⟨set.address, size + param.blobSize, set.params ++ [param],
            set.spare.drop abi.paramSize⟩ rest
      else addLoop ⟨set.address, size, set.params ++ [param], set.spare.drop abi.paramSize⟩ rest

def hksAddParams (set : HksParamSet abi) (params : Option (List (HksParam abi))) :
    HksParamSet abi × Option Failure :=
  match checkBeforeAddParams set params with
  | some failure => (set, some failure)
  | none => addLoop set (params.getD [])

variable (heap : Heap abi)

/-- `BuildParamSet`: the address of the set that is built, and its bytes. What is left of a set that
cannot be built is left out. -/
def buildParamSet (source : Nat → BitVec 8) (set : HksParamSet abi) :
    Except Failure (Nat × Bytes) :=
  if set.paramSetSize.toNat > defaultParamSetSize then
    match heap.malloc .build set.paramSetSize.toNat with
    | none => .error .mallocFail
    | some address => do
        let offset : BitVec 32 := .ofNat 32 (headerSize + abi.paramSize * set.params.length)
        let head ← loadBytes set.bytes 0 offset.toNat
        match memcpyS (heap.block .build set.paramSetSize.toNat) 0 set.paramSetSize.toNat
            (some head) with
        | none => .error .insufficientMemory
        | some copied =>
            let built ← hksFreshParamSet abi address (some source) copied
            .ok (address, built)
  else do
    let built ← hksFreshParamSet abi set.address (some source) set.bytes
    .ok (set.address, built)

def hksBuildParamSet (source : Nat → BitVec 8) (set : HksParamSet abi) :
    Except Failure (Nat × Bytes) := do
  hksCheckParamSet abi (some set.bytes) set.paramSetSize
  buildParamSet heap source set

end Build

/-! ### What is added and received -/

section Sets

variable {abi : Abi}

/-- A parameter of the set at an address is the one that was added: with the same tag, and with the
same value, or with a blob in the set that has the bytes of the caller's. -/
structure Same (source : Nat → BitVec 8) (address : Nat) (set : Bytes)
    (added param : HksParam abi) : Prop where
  tag : param.tag = added.tag
  value : added.hasBlob = false → param = added
  blob : added.hasBlob = true → param.blobSize = added.blobSize ∧ address ≤ param.blobData ∧
    param.blobData + param.blobSize.toNat ≤ address + set.length ∧
      Bytes.slice set (param.blobData - address) param.blobSize.toNat =
        memory source added.blobData added.blobSize.toNat

/-- The set has the parameters that were added, in the same order. -/
def RoundTrip (source : Nat → BitVec 8) (added : List (HksParam abi)) (out : Nat × Bytes) : Prop :=
  List.Forall₂ (Same source out.1 out.2) added (paramsOf abi out.2)

/-- In every state from here on the size is the right one, a call that fails leaves the set
unchanged, and in the end what was added is built, sent and received. -/
def Faithful (heap : Heap abi) (source : Nat → BitVec 8) (added : List (HksParam abi))
    (set : HksParamSet abi) : List (Option (List (HksParam abi))) → Prop
  | [] => set.paramSetSize.toNat = setSize set.params ∧
      ∃ built out, hksBuildParamSet heap source set = .ok built ∧
        hksGetParamSet heap (some (built.2.take set.paramSetSize.toNat)) set.paramSetSize true =
          .ok out ∧ RoundTrip source added out
  | call :: rest => set.paramSetSize.toNat = setSize set.params ∧
      ((hksAddParams set call).2 ≠ none → (hksAddParams set call).1 = set) ∧
        Faithful heap source
          (if (hksAddParams set call).2 = none then added ++ call.getD [] else added)
          (hksAddParams set call).1 rest

/-- What `CheckBeforeAddParams` lets through. -/
def Passes (added params : List (HksParam abi)) : Prop :=
  setSize added ≤ paramSetMaxSize ∧ params.length ≤ abi.defaultParamCnt ∧
    added.length ≤ abi.defaultParamCnt - params.length ∧
      ∀ param ∈ params, param.hasBlob = true → param.blobData ≠ 0

/-- The first parameter alone does not fit into 32 bits. -/
def FirstTooLong (added params : List (HksParam abi)) : Prop :=
  ∃ param rest, params = param :: rest ∧ 2 ^ 32 ≤ setSize (added ++ [param])

/-- The last blob, if there is one, has bytes. -/
def LastFull (params : List (HksParam abi)) : Prop :=
  ∀ param, (params.filter HksParam.hasBlob).getLast? = some param → param.blobSize ≠ 0

/-- What it takes: no call adds some parameters and then meets one that does not fit into 32 bits;
and the set in the end is not too large, its last blob has bytes, and there is memory for it. -/
def Fits (heap : Heap abi) (added : List (HksParam abi)) :
    List (Option (List (HksParam abi))) → Prop
  | [] => setSize added ≤ paramSetMaxSize ∧ LastFull added ∧
      (defaultParamSetSize < setSize added → heap.malloc .build (setSize added) ≠ none) ∧
        heap.malloc .get (setSize added) ≠ none
  | none :: rest => Fits heap added rest
  | some params :: rest =>
      (Passes added params ∧ setSize (added ++ params) < 2 ^ 32 ∧
        Fits heap (added ++ params) rest) ∨
      ((¬Passes added params ∨ FirstTooLong added params) ∧ Fits heap added rest)

end Sets

section Adding

variable {abi : Abi}

/-! ### Adding -/

theorem blobLens_append (first second : List (HksParam abi)) :
    blobLens (first ++ second) = blobLens first + blobLens second := by
  rw [blobLens, map_append, sum_append, ← blobLens, ← blobLens]

theorem setSize_append (first second : List (HksParam abi)) : setSize (first ++ second) =
      setSize first + (abi.paramSize * second.length + blobLens second) := by
  rw [setSize, setSize, blobLens_append, length_append, Nat.mul_add]
  omega

theorem setSize_singleton (params : List (HksParam abi)) (param : HksParam abi) :
    setSize (params ++ [param]) = setSize params + abi.paramSize + param.blobLen := by
  rw [setSize_append, length_singleton, Nat.mul_one, Nat.add_assoc]
  rfl

theorem addLoop_params (set : HksParamSet abi) (params : List (HksParam abi)) :
    set.params <+: (addLoop set params).1.params ∧
      ((addLoop set params).2 = none → (addLoop set params).1.params = set.params ++ params) := by
  induction params generalizing set with
  | nil => exact ⟨prefix_rfl, fun _ => (append_nil _).symm⟩
  | cons param rest hypothesis =>
    have step : ∀ after : HksParamSet abi, after.params = set.params ++ [param] →
        set.params <+: (addLoop after rest).1.params ∧ ((addLoop after rest).2 = none →
          (addLoop after rest).1.params = set.params ++ (param :: rest)) := by
      intro after same
      obtain ⟨grows, all⟩ := hypothesis after
      rw [same] at grows all
      refine ⟨(prefix_append _ _).trans grows, fun done => ?_⟩
      rw [all done, append_assoc, singleton_append]
    rw [addLoop]
    split
    · split
      · exact ⟨prefix_rfl, fun done => absurd done (some_ne_none _)⟩
      · exact step _ rfl
    · exact step _ rfl

variable {set : HksParamSet abi} {params : List (HksParam abi)}

theorem toNat_size_add {param : HksParam abi} (sized : set.paramSetSize.toNat = setSize set.params)
    (fits : setSize (set.params ++ [param]) < 2 ^ 32) :
    (set.paramSetSize + .ofNat 32 abi.paramSize).toNat = setSize set.params + abi.paramSize ∧
      (param.hasBlob = true →
        (set.paramSetSize + .ofNat 32 abi.paramSize + param.blobSize).toNat =
          setSize (set.params ++ [param])) := by
  rw [setSize_singleton] at fits ⊢
  have small : (BitVec.ofNat 32 abi.paramSize).toNat = abi.paramSize := Nat.mod_eq_of_lt (by omega)
  have first : (set.paramSetSize + .ofNat 32 abi.paramSize).toNat =
      setSize set.params + abi.paramSize := by
    rw [BitVec.toNat_add_of_lt (by omega), small, sized]
  refine ⟨first, fun blob => ?_⟩
  have lens : param.blobLen = param.blobSize.toNat := if_pos blob
  rw [BitVec.toNat_add_of_lt (by omega), first, lens]

theorem addLoop_fits (sized : set.paramSetSize.toNat = setSize set.params)
    (fits : setSize (set.params ++ params) < 2 ^ 32) :
    addLoop set params = (⟨set.address, .ofNat 32 (setSize (set.params ++ params)),
      set.params ++ params, set.spare.drop (abi.paramSize * params.length)⟩, none) := by
  induction params generalizing set with
  | nil =>
    have size : set.paramSetSize = .ofNat 32 (setSize set.params) := by
      rw [← sized, BitVec.ofNat_toNat, BitVec.setWidth_eq]
    rw [append_nil, ← size]
    rfl
  | cons param rest hypothesis =>
    rw [append_cons] at fits ⊢
    have once : setSize (set.params ++ [param]) < 2 ^ 32 := by
      rw [setSize_append] at fits
      omega
    obtain ⟨first, second⟩ := toNat_size_add sized once
    have rest_ : ∀ size : BitVec 32, size.toNat = setSize (set.params ++ [param]) →
        addLoop ⟨set.address, size, set.params ++ [param], set.spare.drop abi.paramSize⟩ rest =
          (⟨set.address, .ofNat 32 (setSize (set.params ++ [param] ++ rest)),
            set.params ++ [param] ++ rest,
            set.spare.drop (abi.paramSize * (param :: rest).length)⟩, none) := by
      intro size right
      rw [@hypothesis ⟨set.address, size, set.params ++ [param],
        set.spare.drop abi.paramSize⟩ right fits]
      rw [drop_drop, length_cons, Nat.mul_succ, Nat.add_comm abi.paramSize]
    rw [addLoop]
    by_cases blob : param.hasBlob = true
    · have lens : param.blobLen = param.blobSize.toNat := if_pos blob
      have sum := setSize_singleton set.params param
      have fine : ¬isAdditionOverflow (set.paramSetSize + .ofNat 32 abi.paramSize)
          param.blobSize = true := by
        rw [isAdditionOverflow_eq_true]
        omega
      rw [if_pos blob, if_neg fine]
      exact rest_ _ (second blob)
    · have lens : param.blobLen = 0 := if_neg blob
      rw [if_neg blob]
      refine rest_ _ ?_
      rw [first, setSize_singleton, lens, Nat.add_zero]

theorem addLoop_tooLong {param : HksParam abi} {rest : List (HksParam abi)}
    (sized : set.paramSetSize.toNat = setSize set.params)
    (small : setSize set.params ≤ paramSetMaxSize)
    (long : 2 ^ 32 ≤ setSize (set.params ++ [param])) :
    addLoop set (param :: rest) = (set, some .invalidArgument) := by
  have max : paramSetMaxSize + 24 < 2 ^ 32 := by decide
  have size : abi.paramSize ≤ 24 := by
    cases abi <;> decide
  have word : (BitVec.ofNat 32 abi.paramSize).toNat = abi.paramSize := Nat.mod_eq_of_lt (by omega)
  have first : (set.paramSetSize + .ofNat 32 abi.paramSize).toNat =
      setSize set.params + abi.paramSize := by
    rw [BitVec.toNat_add_of_lt (by omega), word, sized]
  rw [setSize_singleton] at long
  have blob : param.hasBlob = true := by
    by_contra plain
    have lens : param.blobLen = 0 := if_neg plain
    omega
  have lens : param.blobLen = param.blobSize.toNat := if_pos blob
  have overflow : isAdditionOverflow (set.paramSetSize + .ofNat 32 abi.paramSize)
      param.blobSize = true := by
    rw [isAdditionOverflow_eq_true]
    omega
  rw [addLoop, if_pos blob, if_pos overflow, BitVec.add_sub_cancel]

theorem addLoop_wrong (sized : set.paramSetSize.toNat = setSize set.params)
    (long : 2 ^ 32 ≤ setSize (set.params ++ params)) (first : ¬FirstTooLong set.params params)
    (unchanged : (addLoop set params).2 ≠ none → (addLoop set params).1 = set) :
    (addLoop set params).1.paramSetSize.toNat ≠ setSize (addLoop set params).1.params := by
  by_cases done : (addLoop set params).2 = none
  · rw [(addLoop_params set params).2 done]
    omega
  cases params with
  | nil => exact absurd rfl done
  | cons param rest =>
    have fits : setSize (set.params ++ [param]) < 2 ^ 32 :=
      Nat.lt_of_not_le fun long => first ⟨param, rest, rfl, long⟩
    obtain ⟨sum, second⟩ := toNat_size_add sized fits
    have step : ∀ after : HksParamSet abi, after.params = set.params ++ [param] →
        addLoop set (param :: rest) = addLoop after rest → False := by
      intro after same equal
      have grows := (addLoop_params after rest).1
      rw [← equal, unchanged done, same] at grows
      have length := grows.length_le
      rw [length_append, length_singleton] at length
      omega
    exfalso
    by_cases blob : param.hasBlob = true
    · have lens : param.blobLen = param.blobSize.toNat := if_pos blob
      have total := setSize_singleton set.params param
      have fine : ¬isAdditionOverflow (set.paramSetSize + .ofNat 32 abi.paramSize)
          param.blobSize = true := by
        rw [isAdditionOverflow_eq_true]
        omega
      refine step ⟨set.address, set.paramSetSize + .ofNat 32 abi.paramSize + param.blobSize,
        set.params ++ [param], set.spare.drop abi.paramSize⟩ rfl ?_
      rw [addLoop, if_pos blob, if_neg fine]
    · refine step ⟨set.address, set.paramSetSize + .ofNat 32 abi.paramSize,
        set.params ++ [param], set.spare.drop abi.paramSize⟩ rfl ?_
      rw [addLoop, if_neg blob]

/-! ### Building and sending -/

theorem blobLen_le_blobLens {param : HksParam abi} (member : param ∈ params) :
    param.blobLen ≤ blobLens params := by
  induction params with
  | nil => exact absurd member not_mem_nil
  | cons head rest hypothesis =>
    rw [blobLens_cons]
    rcases mem_cons.mp member with rfl | member
    · exact Nat.le_add_right _ _
    · exact Nat.le_trans (hypothesis member) (Nat.le_add_left _ _)

theorem blobLens_eq_zero (plain : params.filter HksParam.hasBlob = []) : blobLens params = 0 := by
  induction params with
  | nil => rfl
  | cons param rest hypothesis =>
    by_cases blob : param.hasBlob = true
    · rw [filter_cons_of_pos blob] at plain
      exact absurd plain (cons_ne_nil _ _)
    · rw [filter_cons_of_neg blob] at plain
      rw [blobLens_cons, hypothesis plain, HksParam.blobLen, if_neg blob]

/-- Blobs with addresses can be copied when the last one has bytes. -/
theorem copyable_iff (present : ∀ param ∈ params, param.hasBlob = true → param.blobData ≠ 0) :
    Copyable params ↔ LastFull params := by
  induction params with
  | nil => exact iff_of_true trivial fun param found => absurd found.symm (some_ne_none _)
  | cons param rest hypothesis =>
    have others := hypothesis fun other member =>
      present other (mem_cons_of_mem _ member)
    rw [Copyable, others, blobLens_cons]
    by_cases blob : param.hasBlob = true
    · have lens : param.blobLen = param.blobSize.toNat := if_pos blob
      have split : LastFull (param :: rest) ↔ ∀ other,
          (param :: rest.filter HksParam.hasBlob).getLast? = some other → other.blobSize ≠ 0 := by
        rw [LastFull, filter_cons_of_pos blob]
      rw [split]
      cases found : rest.filter HksParam.hasBlob with
      | nil =>
        have nothing := blobLens_eq_zero found
        have full : LastFull rest := by
          intro other last
          rw [found] at last
          exact absurd last.symm (some_ne_none _)
        rw [nothing, Nat.add_zero, lens, List.getLast?_singleton]
        constructor
        · rintro ⟨first, _⟩ other same zero
          obtain rfl := some_inj.mp same
          have positive := (first blob).2
          rw [zero] at positive
          exact absurd positive (Nat.lt_irrefl 0)
        · refine fun last => ⟨fun _ => ⟨present param mem_cons_self blob, ?_⟩, full⟩
          exact Nat.pos_of_ne_zero fun zero => last param rfl (BitVec.eq_of_toNat_eq zero)
      | cons head tail =>
        rw [List.getLast?_cons_cons, ← found]
        refine ⟨fun both => both.2, fun last => ⟨fun _ =>
          ⟨present param mem_cons_self blob, ?_⟩, last⟩⟩
        have some_ : rest.filter HksParam.hasBlob ≠ [] := by
          rw [found]
          exact cons_ne_nil _ _
        have full := last _ (List.getLast?_eq_some_getLast some_)
        obtain ⟨inRest, blob'⟩ := mem_filter.mp (getLast_mem some_)
        have one := blobLen_le_blobLens inRest
        rw [HksParam.blobLen, if_pos blob'] at one
        have positive : 0 < ((rest.filter HksParam.hasBlob).getLast some_).blobSize.toNat :=
          Nat.pos_of_ne_zero fun zero => full (BitVec.eq_of_toNat_eq zero)
        exact Nat.lt_of_lt_of_le positive (Nat.le_trans one (Nat.le_add_left _ _))
    · have split : LastFull (param :: rest) ↔ LastFull rest := by
        rw [LastFull, LastFull, filter_cons_of_neg blob]
      rw [split]
      exact ⟨fun both => both.2, fun last => ⟨fun some_ => absurd some_ blob, last⟩⟩

theorem HksParam.setBlobData_setBlobData (param : HksParam abi) (first second : Nat) :
    (param.setBlobData first).setBlobData second = param.setBlobData second := by
  refine HksParam.ext (Bytes.overwrite_again ?_ ?_)
  · rw [Bytes.length_ofNat, param.length, Abi.blobDataAt, Abi.paramSize]
    omega
  · rw [Bytes.length_ofNat, Bytes.length_ofNat]

theorem relocate_relocate (params : List (HksParam abi)) (first second : Nat) :
    relocate second (relocate first params) = relocate second params := by
  induction params generalizing first second with
  | nil => rfl
  | cons param rest hypothesis =>
    rw [relocate, relocate]
    by_cases blob : param.hasBlob = true
    · have moved : (param.setBlobData first).hasBlob = true := by rwa [param.hasBlob_setBlobData]
      rw [if_pos blob, if_pos blob, relocate, if_pos moved, param.setBlobData_setBlobData,
        param.blobSize_setBlobData, hypothesis]
    · rw [if_neg blob, if_neg blob, relocate, if_neg blob, hypothesis]

theorem blobLens_relocate (params : List (HksParam abi)) (start : Nat) :
    blobLens (relocate start params) = blobLens params := by
  induction params generalizing start with
  | nil => rfl
  | cons param rest hypothesis =>
    rw [relocate, blobLens_cons, HksParam.blobLen]
    by_cases blob : param.hasBlob = true
    · have moved : (param.setBlobData start).hasBlob = true := by rwa [param.hasBlob_setBlobData]
      rw [if_pos blob, if_pos blob, blobLens_cons, HksParam.blobLen, if_pos moved,
        param.blobSize_setBlobData, hypothesis]
    · rw [if_neg blob, blobLens_cons, HksParam.blobLen, if_neg blob, hypothesis]

theorem same_relocate {source : Nat → BitVec 8} {address start : Nat} {out : Bytes}
    (params : List (HksParam abi)) (before after : Bytes)
    (split : out = before ++ (contents source params ++ after))
    (place : start = address + before.length)
    (space : start + blobLens params < 256 ^ abi.pointerSize) :
    List.Forall₂ (Same source address out) params (relocate start params) := by
  induction params generalizing before start with
  | nil => exact List.Forall₂.nil
  | cons param rest hypothesis =>
    rw [blobLens_cons] at space
    have length : (contents source [param]).length = param.blobLen := by
      rw [length_contents]
      rfl
    rw [contents_cons, append_assoc] at split
    rw [relocate]
    by_cases blob : param.hasBlob = true
    · have lens : param.blobLen = param.blobSize.toNat := if_pos blob
      rw [if_pos blob]
      refine List.Forall₂.cons ⟨param.tag_setBlobData _, fun plain => ?_, fun _ => ?_⟩
        (hypothesis (before ++ contents source [param])
          (by rw [split, append_assoc]) (by rw [length_append]; omega)
          (by omega))
      · exact absurd blob (plain ▸ Bool.false_ne_true)
      · have whole : (contents source [param]) =
            memory source param.blobData param.blobSize.toNat := by
          rw [contents, flatMap_singleton, if_pos blob]
        have total := congrArg List.length split
        rw [length_append, length_append] at total
        rw [param.blobSize_setBlobData, param.blobData_setBlobData (by omega)]
        refine ⟨rfl, by omega, by omega, ?_⟩
        rw [place, Nat.add_sub_cancel_left, split, Bytes.slice, drop_left, ← lens,
          take_left' length, whole, lens]
    · have lens : param.blobLen = 0 := if_neg blob
      have nothing : contents source [param] = [] := eq_nil_of_length_eq_zero (by omega)
      rw [if_neg blob]
      rw [nothing] at split
      exact List.Forall₂.cons ⟨rfl, fun _ => rfl, fun some_ => absurd some_ blob⟩
        (hypothesis before split place (by omega))

/-- A set under construction: it has what was added, its size is the right one, and its parameters
are inside of it. -/
structure Growing (added : List (HksParam abi)) (set : HksParamSet abi) : Prop where
  params : set.params = added
  sized : set.paramSetSize.toNat = setSize added
  few : added.length ≤ abi.defaultParamCnt
  filled : headerSize + abi.paramSize * added.length + set.spare.length = defaultParamSetSize
  present : ∀ param ∈ added, param.hasBlob = true → param.blobData ≠ 0
  space : set.address + defaultParamSetSize < 256 ^ abi.pointerSize

def HksParamSet.header (set : HksParamSet abi) : Bytes :=
  Bytes.ofNat 4 set.paramSetSize.toNat ++ Bytes.ofNat 4 set.params.length

namespace Growing

variable {added : List (HksParam abi)} (growing : Growing added set)

include growing

theorem length_lt : added.length < 2 ^ 32 := by
  have cnt : abi.defaultParamCnt < 2 ^ 32 := by
    cases abi <;> decide
  exact Nat.lt_of_le_of_lt growing.few cnt

theorem head : Header set.header (setSize added) added.length := by
  have first : (Bytes.ofNat 4 set.paramSetSize.toNat).length = 4 := Bytes.length_ofNat _ _
  have second : (Bytes.ofNat 4 set.params.length).length = 4 := Bytes.length_ofNat _ _
  refine ⟨by rfl, ?_, ?_⟩
  · rw [HksParamSet.header, Bytes.slice, drop_zero, take_left' first,
      Bytes.toNat_ofNat _ _ set.paramSetSize.isLt, growing.sized]
  · rw [HksParamSet.header, Bytes.slice, drop_left' first, take_of_length_le (by omega),
      growing.params, Bytes.toNat_ofNat _ _ growing.length_lt]

theorem bytes_eq : set.bytes = set.header ++ (paramBytes added ++ set.spare) := by
  rw [HksParamSet.bytes, HksParamSet.header, growing.params]

theorem checked_iff : Checked abi set.bytes set.paramSetSize ↔ setSize added ≤ paramSetMaxSize := by
  have size : setSize added = headerSize + abi.paramSize * added.length + blobLens added := rfl
  have sized := growing.sized
  refine ⟨fun checked => growing.sized ▸ checked.high, fun small => ⟨?_, ?_, ?_, ?_⟩⟩
  · omega
  · omega
  · rw [growing.bytes_eq, growing.head.slice _ (by decide), growing.head.paramsCnt]
    omega
  · rw [growing.bytes_eq, growing.head.slice _ (by decide), growing.head.size, growing.sized]

end Growing

theorem filled_zero (source : Nat → BitVec 8) (data : Bytes) : filled (some source) 0 params data =
      contents source params ++ data.drop (blobLens params) := by
  rw [filled, Bytes.overwrite, take_zero, nil_append, Nat.zero_add, length_contents]

theorem hksFreshParamSet_cases (source : Nat → BitVec 8) (address : Nat) {header data : Bytes}
    (head : Header header (setSize params) params.length) (small : setSize params ≤ paramSetMaxSize)
    (long : setSize params ≤ headerSize + abi.paramSize * params.length + data.length) :
    (hksFreshParamSet abi address (some source) (header ++ (paramBytes params ++ data)) =
        .ok (header ++ (paramBytes (relocate (address + (headerSize + abi.paramSize *
          params.length)) params) ++ (contents source params ++ data.drop (blobLens params)))) ∧
        Copyable params) ∨ (∃ failure, hksFreshParamSet abi address (some source)
        (header ++ (paramBytes params ++ data)) = .error failure) ∧ ¬Copyable params := by
  have max : paramSetMaxSize < 2 ^ 32 := by decide
  have size : setSize params = headerSize + abi.paramSize * params.length + blobLens params := rfl
  have word : (BitVec.ofNat 32 (setSize params)).toNat = setSize params :=
    Nat.mod_eq_of_lt (by omega)
  have passed : hksCheckParamSet abi (some (header ++ (paramBytes params ++ data)))
      (.ofNat 32 (setSize params)) = .ok () := by
    rcases @hksCheckParamSet_cases abi (header ++ (paramBytes params ++ data))
      (.ofNat 32 (setSize params)) (by rw [length_append, head.length]; omega) with
        ⟨passed, _⟩ | ⟨_, unchecked⟩
    · exact passed
    refine absurd ⟨by omega, by omega, ?_, ?_⟩ unchecked
    · rw [head.slice _ (by decide), head.paramsCnt]
      omega
    · rw [head.slice _ (by decide), head.size, word]
  rw [hksFreshParamSet, head.load _ (by decide), ok_bind, head.size, passed, ok_bind]
  rcases @freshParamSet_cases abi header data (setSize params) params address (some source) head
    small (by omega) long with ⟨failure, failed, _, why⟩ | ⟨done, _, copies⟩
  · exact .inr ⟨⟨failure, failed⟩, (why rfl).2⟩
  · rw [filled_zero] at done
    exact .inl ⟨done, copies.resolve_left (some_ne_none _)⟩

theorem hksBuildParamSet_cases (heap : Heap abi) (source : Nat → BitVec 8)
    {added : List (HksParam abi)} (growing : Growing added set)
    (small : setSize added ≤ paramSetMaxSize) :
    (∃ address data, hksBuildParamSet heap source set = .ok (address, set.header ++
          (paramBytes (relocate (address + (headerSize + abi.paramSize * added.length)) added) ++
            (contents source added ++ data))) ∧
        address + setSize added < 256 ^ abi.pointerSize ∧ Copyable added ∧
          (defaultParamSetSize < setSize added → heap.malloc .build (setSize added) ≠ none)) ∨
      (∀ built, hksBuildParamSet heap source set ≠ .ok built) ∧
        ¬(Copyable added ∧
          (defaultParamSetSize < setSize added → heap.malloc .build (setSize added) ≠ none)) := by
  have filled := growing.filled
  have passed : hksCheckParamSet abi (some set.bytes) set.paramSetSize = .ok () := by
    rcases @hksCheckParamSet_cases abi set.bytes set.paramSetSize
      (by rw [growing.bytes_eq, length_append, growing.head.length]; omega) with
        ⟨passed, _⟩ | ⟨_, unchecked⟩
    · exact passed
    · exact absurd (growing.checked_iff.mpr small) unchecked
  rw [hksBuildParamSet, passed, ok_bind, buildParamSet, growing.sized, growing.params]
  by_cases large : setSize added > defaultParamSetSize
  · rw [if_pos large]
    cases allocated : heap.malloc .build (setSize added) with
    | none =>
      exact .inr ⟨fun built equal => (by cases equal), fun both => both.2 large rfl⟩
    | some address =>
      have max : paramSetMaxSize < memMaxLen ∧ memMaxLen < 2 ^ 32 := by decide
      have offset : (BitVec.ofNat 32 (headerSize + abi.paramSize * added.length)).toNat =
          headerSize + abi.paramSize * added.length := Nat.mod_eq_of_lt (by omega)
      have front : set.bytes = (set.header ++ paramBytes added) ++ set.spare := by
        rw [growing.bytes_eq, append_assoc]
      have length : (set.header ++ paramBytes added).length =
          headerSize + abi.paramSize * added.length := by
        rw [length_append, growing.head.length, length_paramBytes]
      have head : loadBytes set.bytes 0 (headerSize + abi.paramSize * added.length) =
          .ok (set.header ++ paramBytes added) := by
        rw [loadBytes, if_pos, Bytes.slice, drop_zero, front, take_left' length]
        rw [front, length_append]
        omega
      have copied : memcpyS (heap.block .build (setSize added)) 0 (setSize added)
          (some (set.header ++ paramBytes added)) = some ((set.header ++ paramBytes added) ++
            (heap.block .build (setSize added)).drop (headerSize +
              abi.paramSize * added.length)) := by
        refine memcpyS_eq_some.mpr ⟨⟨by omega, by omega⟩, _, rfl, by omega, ?_⟩
        rw [Bytes.overwrite, take_zero, nil_append, Nat.zero_add, length]
      have block : (heap.block .build (setSize added)).length = setSize added := by
        rw [Heap.block, length_map, length_range]
      dsimp only
      rw [offset, head, ok_bind, copied, append_assoc]
      rcases @hksFreshParamSet_cases abi added source address set.header
        ((heap.block .build (setSize added)).drop (headerSize + abi.paramSize * added.length))
        growing.head small (by rw [length_drop]; omega) with
          ⟨done, copies⟩ | ⟨⟨failure, failed⟩, uncopied⟩
      · dsimp only
        rw [done]
        exact .inl ⟨address, _, rfl, heap.fits .build _ address allocated, copies,
          fun _ => some_ne_none _⟩
      · dsimp only
        rw [failed]
        exact .inr ⟨fun built equal => (by cases equal), fun both => uncopied both.1⟩
  · rw [if_neg large, growing.bytes_eq]
    rcases @hksFreshParamSet_cases abi added source set.address set.header set.spare growing.head
      small (by omega) with
      ⟨done, copies⟩ | ⟨⟨failure, failed⟩, uncopied⟩
    · rw [done]
      have space := growing.space
      exact .inl ⟨set.address, _, rfl, by omega, copies, fun some_ => absurd some_ large⟩
    · rw [failed]
      exact .inr ⟨fun built equal => (by cases equal), fun both => uncopied both.1⟩

theorem roundTrip_of_built (heap : Heap abi) (source : Nat → BitVec 8)
    {added : List (HksParam abi)} (growing : Growing added set)
    (small : setSize added ≤ paramSetMaxSize) (address : Nat) (data : Bytes) :
    (∃ out, hksGetParamSet heap (some ((set.header ++ (paramBytes (relocate (address +
        (headerSize + abi.paramSize * added.length)) added) ++
          (contents source added ++ data))).take set.paramSetSize.toNat)) set.paramSetSize true =
        .ok out ∧ RoundTrip source added out) ↔ heap.malloc .get (setSize added) ≠ none := by
  have size : setSize added = headerSize + abi.paramSize * added.length + blobLens added := rfl
  generalize placed : relocate (address + (headerSize + abi.paramSize * added.length)) added = moved
  have same : moved.length = added.length ∧ blobLens moved = blobLens added := by
    rw [← placed, length_relocate, blobLens_relocate]
    exact ⟨rfl, rfl⟩
  have head : Header set.header set.paramSetSize.toNat moved.length := by
    rw [growing.sized, same.1]
    exact growing.head
  have length : (set.header ++ (paramBytes moved ++ contents source added)).length =
      set.paramSetSize.toNat := by
    rw [growing.sized, length_append, length_append, growing.head.length,
      length_paramBytes, length_contents, same.1, size, Nat.add_assoc]
  have taken : (set.header ++ (paramBytes moved ++ (contents source added ++ data))).take
      set.paramSetSize.toNat = set.header ++ (paramBytes moved ++ contents source added) := by
    have split : set.header ++ (paramBytes moved ++ (contents source added ++ data)) =
        (set.header ++ (paramBytes moved ++ contents source added)) ++ data := by
      simp only [append_assoc]
    rw [split, take_left' length]
  have checked : Checked abi (set.header ++ (paramBytes moved ++ contents source added))
      set.paramSetSize := by
    have sized := growing.sized
    refine ⟨by omega, by omega, ?_, ?_⟩
    · rw [head.slice _ (by decide), head.paramsCnt, same.1]
      omega
    · rw [head.slice _ (by decide), head.size]
  rw [taken, hksGetParamSet_checked heap checked head length, growing.sized]
  cases allocated : heap.malloc .get (setSize added) with
  | none => exact iff_of_false (fun ⟨out, equal, _⟩ => by cases equal) fun some_ => some_ rfl
  | some place =>
    refine iff_of_true ?_ (some_ne_none _)
    have space := heap.fits .get _ place allocated
    dsimp only
    rcases @freshParamSet_cases abi set.header (contents source added) set.paramSetSize.toNat moved
      place none head (growing.sized ▸ small) (by rw [growing.sized, same.1]; omega)
      (by rw [growing.sized, same.1, length_contents]; exact Nat.le_of_eq size) with
        ⟨failure, failed, _, why⟩ | ⟨done, _, _⟩
    · have total : setSize moved = set.paramSetSize.toNat := by
        rw [growing.sized, setSize, same.1, same.2, ← size]
      exact absurd rfl (why total).1
    rw [done]
    refine ⟨_, rfl, ?_⟩
    have params : relocate (place + (headerSize + abi.paramSize * moved.length)) moved =
        relocate (place + (headerSize + abi.paramSize * added.length)) added := by
      rw [same.1, ← placed, relocate_relocate]
    rw [params]
    have relocated : Header set.header (setSize added) (relocate (place + (headerSize +
        abi.paramSize * added.length)) added).length := by
      rw [length_relocate]
      exact growing.head
    rw [RoundTrip, paramsOf_append relocated]
    refine same_relocate added (set.header ++ paramBytes (relocate (place + (headerSize +
      abi.paramSize * added.length)) added)) [] ?_ ?_ (by omega)
    · rw [append_nil, append_assoc]
      rfl
    · rw [length_append, growing.head.length, length_paramBytes, length_relocate]

/-- In the end, what was added is built, sent and received when it fits. -/
theorem faithful_nil_iff (heap : Heap abi) (source : Nat → BitVec 8)
    {added : List (HksParam abi)} (growing : Growing added set) :
    Faithful heap source added set [] ↔ Fits heap added [] := by
  rw [Faithful, growing.params]
  constructor
  · rintro ⟨_, built, out, build, get, same⟩
    have small : setSize added ≤ paramSetMaxSize := by
      by_contra large
      have unchecked := mt growing.checked_iff.mp large
      rcases @hksCheckParamSet_cases abi set.bytes set.paramSetSize
        (by rw [growing.bytes_eq, length_append, growing.head.length]; omega) with
          ⟨_, checked⟩ | ⟨failed, _⟩
      · exact unchecked checked
      · rw [hksBuildParamSet, failed] at build
        cases build
    rcases hksBuildParamSet_cases heap source growing small with
      ⟨address, data, done, _, copies, memory⟩ | ⟨failed, _⟩
    · obtain rfl := Except.ok.inj (done.symm.trans build)
      exact ⟨small, (copyable_iff growing.present).mp copies, memory,
        (roundTrip_of_built heap source growing small address data).mp ⟨out, get, same⟩⟩
    · exact absurd build (failed built)
  · rintro ⟨small, last, memory, receive⟩
    rcases hksBuildParamSet_cases heap source growing small with
      ⟨address, data, done, _, _, _⟩ | ⟨_, uncopied⟩
    · obtain ⟨out, get, same⟩ :=
        (roundTrip_of_built heap source growing small address data).mpr receive
      exact ⟨growing.sized, _, out, done, get, same⟩
    · exact absurd ⟨(copyable_iff growing.present).mpr last, memory⟩ uncopied

namespace Growing

variable {added : List (HksParam abi)} (growing : Growing added set)

include growing

/-- What `CheckBeforeAddParams` says. -/
theorem checkBeforeAddParams_iff (params : List (HksParam abi)) :
    checkBeforeAddParams set (some params) = none ↔ Passes added params := by
  rw [checkBeforeAddParams, growing.sized, growing.params]
  by_cases many : setSize added > paramSetMaxSize ∨ params.length > abi.defaultParamCnt ∨
      added.length > abi.defaultParamCnt - params.length
  · rw [if_pos many]
    exact iff_of_false (some_ne_none _) fun ⟨_, _, _, _⟩ => by omega
  rw [if_neg many]
  by_cases null : (params.any fun param => param.hasBlob && param.blobData == 0) = true
  · rw [if_pos null]
    obtain ⟨param, member, both⟩ := any_eq_true.mp null
    obtain ⟨blob, zero⟩ := Bool.and_eq_true_iff.mp both
    exact iff_of_false (some_ne_none _) fun passes =>
      passes.2.2.2 param member blob (beq_iff_eq.mp zero)
  · rw [if_neg null]
    refine iff_of_true rfl ⟨by omega, by omega, by omega, fun param member blob zero => null ?_⟩
    exact any_eq_true.mpr ⟨param, member, Bool.and_eq_true_iff.mpr ⟨blob, beq_iff_eq.mpr zero⟩⟩

theorem add {params : List (HksParam abi)} (passes : Passes added params)
    (fits : setSize (added ++ params) < 2 ^ 32) : (hksAddParams set (some params)).2 = none ∧
      Growing (added ++ params) (hksAddParams set (some params)).1 := by
  obtain ⟨_, few, room, present⟩ := passes
  have done := @addLoop_fits abi set params (by rw [growing.params]; exact growing.sized)
    (by rwa [growing.params])
  rw [hksAddParams, (growing.checkBeforeAddParams_iff params).mpr ⟨‹_›, few, room, present⟩]
  rw [getD_some, done, growing.params]
  have cnt : headerSize + abi.paramSize * abi.defaultParamCnt ≤ defaultParamSetSize := by
    cases abi <;> decide
  have more : abi.paramSize * (added ++ params).length ≤ abi.paramSize * abi.defaultParamCnt := by
    refine Nat.mul_le_mul_left _ ?_
    rw [length_append]
    omega
  have filled := growing.filled
  refine ⟨rfl, rfl, Nat.mod_eq_of_lt fits, ?_, ?_, fun param member blob => ?_, growing.space⟩
  · rw [length_append]
    omega
  · rw [length_append, Nat.mul_add] at more ⊢
    rw [length_drop]
    omega
  · rcases mem_append.mp member with old | new
    · exact growing.present param old blob
    · exact present param new blob

end Growing

theorem Faithful.sized {heap : Heap abi} {source : Nat → BitVec 8}
    {added : List (HksParam abi)} {calls : List (Option (List (HksParam abi)))}
    (faithful : Faithful heap source added set calls) :
    set.paramSetSize.toNat = setSize set.params := by
  cases calls with
  | nil => exact faithful.1
  | cons call rest => exact faithful.1

/-- From a set under construction on, everything is as it should be exactly when all that is still
added fits. -/
theorem faithful_iff_of_growing (heap : Heap abi) (source : Nat → BitVec 8)
    {added : List (HksParam abi)} (growing : Growing added set)
    (calls : List (Option (List (HksParam abi)))) :
    Faithful heap source added set calls ↔ Fits heap added calls := by
  induction calls generalizing added set with
  | nil => exact faithful_nil_iff heap source growing
  | cons call rest hypothesis =>
    have sized : set.paramSetSize.toNat = setSize set.params := by
      rw [growing.params]
      exact growing.sized
    have kept : ∀ failure, hksAddParams set call = (set, some failure) →
        (Faithful heap source added set (call :: rest) ↔ Fits heap added rest) := by
      intro failure failed
      rw [Faithful, failed, ← hypothesis growing]
      exact ⟨fun faithful => faithful.2.2, fun faithful => ⟨sized, fun _ => rfl, faithful⟩⟩
    cases call with
    | none => exact kept .invalidArgument rfl
    | some params =>
      by_cases passes : Passes added params
      · by_cases fits : setSize (added ++ params) < 2 ^ 32
        · obtain ⟨done, grown⟩ := growing.add passes fits
          have notFirst : ¬FirstTooLong added params := by
            rintro ⟨param, others, rfl, long⟩
            rw [append_cons, setSize_append] at fits
            omega
          rw [Faithful, done, if_pos rfl, getD_some, hypothesis grown]
          constructor
          · exact fun faithful => .inl ⟨passes, fits, faithful.2.2⟩
          · rintro (⟨_, _, further⟩ | ⟨either, _⟩)
            · exact ⟨sized, fun failed => absurd rfl failed, further⟩
            · exact absurd either (not_or.mpr ⟨not_not.mpr passes, notFirst⟩)
        · have checked := (growing.checkBeforeAddParams_iff params).mpr passes
          have loop : hksAddParams set (some params) = addLoop set params := by
            rw [hksAddParams, checked, getD_some]
          by_cases first : FirstTooLong added params
          · obtain ⟨param, others, rfl, long⟩ := first
            have failed := @addLoop_tooLong abi set param others sized
              (by rw [growing.params]; exact passes.1) (by rwa [growing.params])
            rw [kept .invalidArgument (loop.trans failed)]
            constructor
            · exact fun further => .inr ⟨.inr ⟨param, others, rfl, long⟩, further⟩
            · rintro (⟨_, short, _⟩ | ⟨_, further⟩)
              · exact absurd short fits
              · exact further
          · refine iff_of_false (fun faithful => ?_) ?_
            · obtain ⟨_, unchanged, after⟩ := faithful
              rw [loop] at unchanged after
              exact addLoop_wrong sized (by rw [growing.params]; omega)
                (by rwa [growing.params]) unchanged after.sized
            · rintro (⟨_, short, _⟩ | ⟨either, _⟩)
              · exact fits short
              · exact absurd either (not_or.mpr ⟨not_not.mpr passes, first⟩)
      · have failed : ∃ failure, checkBeforeAddParams set (some params) = some failure :=
          ne_none_iff_exists'.mp (mt (growing.checkBeforeAddParams_iff params).mp passes)
        obtain ⟨failure, failed⟩ := failed
        rw [kept failure (by rw [hksAddParams, failed])]
        constructor
        · exact fun further => .inr ⟨.inl passes, further⟩
        · rintro (⟨passed, _⟩ | ⟨_, further⟩)
          · exact absurd passed passes
          · exact further

theorem growing_of_hksInitParamSet {heap : Heap abi} (made : hksInitParamSet heap = .ok set) :
    Growing [] set := by
  rw [hksInitParamSet] at made
  cases allocated : heap.malloc .init defaultParamSetSize with
  | none =>
    rw [allocated] at made
    cases made
  | some address =>
    rw [allocated] at made
    obtain rfl := Except.ok.inj made
    refine ⟨rfl, rfl, Nat.zero_le _, ?_, forall_mem_nil _, heap.fits _ _ _ allocated⟩
    rw [length_drop, Heap.block, length_map, length_range]
    rfl

end Adding

/-- For every sequence of additions to a new set: the sizes are right in every state, failing
additions change nothing, and what is built and received again is what was added, exactly when all
that is added fits, its last blob has bytes and there is memory. -/
theorem faithful_iff {abi : Abi} (heap : Heap abi) (source : Nat → BitVec 8) (set : HksParamSet abi)
    (calls : List (Option (List (HksParam abi)))) (made : hksInitParamSet heap = .ok set) :
    Faithful heap source [] set calls ↔ Fits heap [] calls :=
  faithful_iff_of_growing heap source (growing_of_hksInitParamSet made) calls

def sampleAlgorithm : HksParam .ilp32 :=
  ⟨[1, 0, 0, 0x20, 0, 0, 0, 0, 20, 0, 0, 0, 0, 0, 0, 0], rfl⟩

def sampleSet : HksParamSet .ilp32 :=
  ⟨0x1000, 8, [], (sampleHeap.block .init defaultParamSetSize).drop headerSize⟩

theorem faithful_iff_sample : Faithful sampleHeap (fun _ => 7) [] sampleSet
      [some [sampleAlgorithm, sampleNonce 3], none] := by
  refine (faithful_iff sampleHeap (fun _ => 7) sampleSet _ rfl).mpr (.inl ⟨⟨by decide, by decide,
    by decide, by decide⟩, by decide, by decide, fun param last => ?_, by decide, by decide⟩)
  have nonce : ([sampleAlgorithm, sampleNonce 3].filter HksParam.hasBlob).getLast? =
      some (sampleNonce 3) := by
    decide
  obtain rfl := Option.some_inj.mp (nonce.symm.trans last)
  decide

/-- A set whose last blob is empty cannot be built. -/
theorem empty_blob_not_built : ∃ set, hksInitParamSet sampleHeap = .ok set ∧
      ¬Faithful sampleHeap (fun _ => 7) [] set [some [sampleNonce 0]] := by
  refine ⟨sampleSet, rfl, fun faithful => ?_⟩
  obtain ⟨_, _, _, built, out, build, _⟩ := faithful
  have failed : hksBuildParamSet sampleHeap (fun _ => 7)
      (hksAddParams sampleSet (some [sampleNonce 0])).1 = .error .insufficientMemory := by
    decide +kernel
  rw [failed] at build
  cases build

end TowerSafe.ParamSet
