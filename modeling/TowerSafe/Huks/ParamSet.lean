/-
This file embeds how `hks_param.c` makes a parameter set from bytes that somebody else sent. The
memory of a set is a byte string, and an access outside of it is an error of its own. For every byte
string there is no such access, and the blobs of what is made fill the set behind the parameters.
-/

import TowerSafe.Library.Bytes
import TowerSafe.Library.Tiling

namespace TowerSafe.ParamSet

open Library Option
open List hiding set

/-! ### Layout -/

/-- The sizes of the pointers, of four or of eight bytes. -/
inductive Abi where
  | ilp32
  | lp64
  deriving DecidableEq

def Abi.pointerSize : Abi → Nat
  | .ilp32 => 4
  | .lp64 => 8

/-- `sizeof(struct HksParam)`: the tag, and from eight on the union. -/
def Abi.paramSize (abi : Abi) : Nat :=
  8 + 2 * abi.pointerSize

/-- Where `blob.size` is in `struct HksParam`. -/
def blobSizeAt : Nat := 8

/-- Where `blob.data` is in `struct HksParam`. -/
def Abi.blobDataAt (abi : Abi) : Nat :=
  8 + abi.pointerSize

/-- `sizeof(struct HksParamSet)`. -/
def headerSize : Nat := 8

def paramSetMaxSize : Nat := 4 * 1024 * 1024

def defaultParamSetSize : Nat := 512

def Abi.defaultParamCnt (abi : Abi) : Nat :=
  (defaultParamSetSize - headerSize) / abi.paramSize

def memMaxLen : Nat := 0x7fffffff

/-- The return values other than `HKS_SUCCESS`, and an access outside of the memory of a set, which
is not one. -/
inductive Failure where
  | nullPointer
  | invalidArgument
  | mallocFail
  | insufficientMemory
  | outside
  deriving DecidableEq

/-- `GetTagType(tag) == HKS_TAG_TYPE_BYTES`. -/
def isBytes (tag : BitVec 32) : Bool :=
  tag &&& 0xF0000000 == 0x50000000

def isAdditionOverflow (first second : BitVec 32) : Bool :=
  decide (2 ^ 32 - 1 - first.toNat < second.toNat)

@[ext]
structure HksParam (abi : Abi) where
  bytes : Bytes
  length : bytes.length = abi.paramSize
  deriving DecidableEq

namespace HksParam

variable {abi : Abi} (param : HksParam abi)

def tag : BitVec 32 :=
  .ofNat 32 (Bytes.toNat (Bytes.slice param.bytes 0 4))

def hasBlob : Bool :=
  isBytes param.tag

def blobSize : BitVec 32 :=
  .ofNat 32 (Bytes.toNat (Bytes.slice param.bytes blobSizeAt 4))

def blobData : Nat :=
  Bytes.toNat (Bytes.slice param.bytes abi.blobDataAt abi.pointerSize)

/-- The bytes that the parameter has outside of `params`. -/
def blobLen : Nat :=
  if param.hasBlob then param.blobSize.toNat else 0

/-- The parameter with another `blob.data`. -/
def setBlobData (pointer : Nat) : HksParam abi where
  bytes := Bytes.overwrite param.bytes abi.blobDataAt (Bytes.ofNat abi.pointerSize pointer)
  length := by
    rw [Bytes.length_overwrite, param.length]
    rw [Bytes.length_ofNat, param.length, Abi.blobDataAt, Abi.paramSize]
    omega

end HksParam

/-! ### Memory -/

/-- What is allocated: the set, the set that is built when it is large, and the set that is made. -/
inductive Allocation where
  | init
  | build
  | get
  deriving DecidableEq

/-- `HksMalloc`: the address, if there is memory, and what the memory has then. The address behind
an object is in the address space too. -/
structure Heap (abi : Abi) where
  malloc : Allocation → Nat → Option Nat
  content : Allocation → Nat → BitVec 8
  fits : ∀ allocation size address, malloc allocation size = some address →
    address + size < 256 ^ abi.pointerSize

/-- The memory as it is allocated. -/
def Heap.block {abi : Abi} (heap : Heap abi) (allocation : Allocation) (size : Nat) : Bytes :=
  (List.range size).map (heap.content allocation)

/-- Read some bytes of a set. -/
def loadBytes (set : Bytes) (start width : Nat) : Except Failure Bytes :=
  if start + width ≤ set.length then .ok (Bytes.slice set start width) else .error .outside

/-- Read a number of a set. -/
def load (set : Bytes) (start width : Nat) : Except Failure Nat :=
  if start + width ≤ set.length then .ok (Bytes.toNat (Bytes.slice set start width))
  else .error .outside

/-- Write some bytes of a set. -/
def store (set : Bytes) (start : Nat) (source : Bytes) : Except Failure Bytes :=
  if start + source.length ≤ set.length then .ok (Bytes.overwrite set start source)
  else .error .outside

/-- `memcpy_s` to a place of a set, from memory that has nothing in common with it; without a source
when that is `NULL`. -/
def memcpyS (set : Bytes) (start destMax : Nat) (source : Option Bytes) : Option Bytes :=
  if destMax = 0 ∨ destMax > memMaxLen then none
  else
    match source with
    | none => none
    | some source =>
        if source.length > destMax then none else some (Bytes.overwrite set start source)

/-- The bytes at an address of the caller's memory. -/
def memory (source : Nat → BitVec 8) (address size : Nat) : Bytes :=
  (List.range size).map fun place => source (address + place)

/-! ### From bytes to a set -/

section Fresh

variable (abi : Abi)

def hksCheckParamSet (set : Option Bytes) (size : BitVec 32) : Except Failure Unit :=
  match set with
  | none => .error .nullPointer
  | some set =>
      if size.toNat < headerSize ∨ size.toNat > paramSetMaxSize then .error .invalidArgument
      else do
        let paramSetSize ← load set 0 4
        if paramSetSize ≠ size.toNat then .error .invalidArgument
        else
          let paramsCnt ← load set 4 4
          if paramsCnt > (size.toNat - headerSize) / abi.paramSize then .error .invalidArgument
          else .ok ()

/-- `isCopy`: the blob is copied from the caller's memory to its place. -/
def copyBlob (copy : Option (Nat → BitVec 8)) (size offset : BitVec 32) (index : Nat)
    (blobSize : BitVec 32) (set : Bytes) : Except Failure Bytes :=
  match copy with
  | none => .ok set
  | some source => do
      let data ← load set (headerSize + abi.paramSize * index + abi.blobDataAt) abi.pointerSize
      match memcpyS set offset.toNat (size - offset).toNat
          (if data = 0 then none else some (memory source data blobSize.toNat)) with
      | none => .error .insufficientMemory
      | some set => .ok set

/-- What the loop does with a parameter that has a blob: the offset behind it, and the set. -/
def freshBlob (address : Nat) (copy : Option (Nat → BitVec 8)) (size offset : BitVec 32)
    (index : Nat) (set : Bytes) : Except Failure (BitVec 32 × Bytes) := do
  let blobSize ← load set (headerSize + abi.paramSize * index + blobSizeAt) 4
  if isAdditionOverflow offset (.ofNat 32 blobSize) then .error .invalidArgument
  else
    let set ← copyBlob abi copy size offset index (.ofNat 32 blobSize) set
    let set ← store set (headerSize + abi.paramSize * index + abi.blobDataAt)
      (Bytes.ofNat abi.pointerSize (address + offset.toNat))
    .ok (offset + .ofNat 32 blobSize, set)

/-- The loop of `HksFreshParamSet` and of `FreshParamSet`, over the parameters from an index on. -/
def freshLoop (address : Nat) (copy : Option (Nat → BitVec 8)) (size : BitVec 32) :
    Nat → Nat → BitVec 32 → Bytes → Except Failure (BitVec 32 × Bytes)
  | 0, _, offset, set => .ok (offset, set)
  | count + 1, index, offset, set =>
      if size < offset then .error .invalidArgument
      else do
        let tag ← load set (headerSize + abi.paramSize * index) 4
        if isBytes (.ofNat 32 tag) then
          let fresh ← freshBlob abi address copy size offset index set
          freshLoop address copy size count (index + 1) fresh.1 fresh.2
        else freshLoop address copy size count (index + 1) offset set

def freshParamSet (address : Nat) (copy : Option (Nat → BitVec 8)) (set : Bytes) :
    Except Failure Bytes := do
  let size ← load set 0 4
  let paramsCnt ← load set 4 4
  let fresh ← freshLoop abi address copy (.ofNat 32 size) paramsCnt 0
    (.ofNat 32 (headerSize + abi.paramSize * paramsCnt)) set
  if size ≠ fresh.1.toNat then .error .invalidArgument else .ok fresh.2

/-- `HksFreshParamSet`, which makes sure of the sizes first. -/
def hksFreshParamSet (address : Nat) (copy : Option (Nat → BitVec 8)) (set : Bytes) :
    Except Failure Bytes := do
  let size ← load set 0 4
  hksCheckParamSet abi (some set) (.ofNat 32 size)
  freshParamSet abi address copy set

variable {abi} (heap : Heap abi)

/-- `HksGetParamSet`: the address of the new set, and its bytes. -/
def hksGetParamSet (inParamSet : Option Bytes) (inParamSetSize : BitVec 32)
    (outParamSet : Bool) : Except Failure (Nat × Bytes) := do
  hksCheckParamSet abi inParamSet inParamSetSize
  match inParamSet with
  | none => .error .nullPointer
  | some set =>
      if outParamSet = false then .error .nullPointer
      else
        let size ← load set 0 4
        match heap.malloc .get size with
        | none => .error .mallocFail
        | some address =>
            let buf ← loadBytes set 0 size
            let fresh ← freshParamSet abi address none buf
            .ok (address, fresh)

end Fresh

/-! ### What a set has -/

section Sets

variable {abi : Abi}

def paramBytes (params : List (HksParam abi)) : Bytes :=
  params.flatMap HksParam.bytes

/-- The first of the parameters that some bytes have. -/
def takeParams (abi : Abi) : Nat → Bytes → List (HksParam abi)
  | 0, _ => []
  | count + 1, bytes =>
      if long : abi.paramSize ≤ bytes.length then
        ⟨bytes.take abi.paramSize, length_take_of_le long⟩ ::
          takeParams abi count (bytes.drop abi.paramSize)
      else []

/-- The parameters of a set that is one byte string. -/
def paramsOf (abi : Abi) (set : Bytes) : List (HksParam abi) :=
  takeParams abi (Bytes.toNat (Bytes.slice set 4 4)) (set.drop headerSize)

def blobLens (params : List (HksParam abi)) : Nat :=
  (params.map HksParam.blobLen).sum

/-- The size of a set with some parameters: the header, the array of parameters, and the blobs. -/
def setSize (params : List (HksParam abi)) : Nat :=
  headerSize + abi.paramSize * params.length + blobLens params

/-- The blobs of a set, each with its address and its size. -/
def blobs (params : List (HksParam abi)) : List (Nat × Nat) :=
  (params.filter HksParam.hasBlob).map fun param => (param.blobData, param.blobSize.toNat)

/-- The blobs of the set at an address are behind its parameters, follow each other, have no byte in
common, and end where the set ends. -/
structure Contained (abi : Abi) (address : Nat) (set : Bytes) : Prop where
  size : Bytes.toNat (Bytes.slice set 0 4) = set.length
  fill : Segments (address + (headerSize + abi.paramSize * (paramsOf abi set).length))
    (blobs (paramsOf abi set)) (address + set.length)
  inside : ∀ blob ∈ blobs (paramsOf abi set),
    address + (headerSize + abi.paramSize * (paramsOf abi set).length) ≤ blob.1 ∧
      blob.1 + blob.2 ≤ address + set.length
  apart : (blobs (paramsOf abi set)).Pairwise fun first second => first.1 + first.2 ≤ second.1

end Sets

/-! ### Reading and writing -/

section Loading

variable {abi : Abi}

theorem Abi.four_le_pointerSize (abi : Abi) : 4 ≤ abi.pointerSize := by
  cases abi <;> decide

theorem ok_bind {α β : Type} (value : α) (next : α → Except Failure β) :
    (Except.ok value >>= next) = next value :=
  rfl

theorem load_inside {before part : Bytes} (after : Bytes) {start width : Nat}
    (inside : start + width ≤ part.length) :
    load (before ++ (part ++ after)) (before.length + start) width =
      .ok (Bytes.toNat (Bytes.slice part start width)) := by
  rw [load, if_pos, Bytes.slice_inside after inside]
  rw [length_append, length_append]
  omega

theorem store_inside {before part source : Bytes} (after : Bytes) {start : Nat}
    (inside : start + source.length ≤ part.length) :
    store (before ++ (part ++ after)) (before.length + start) source =
      .ok (before ++ (Bytes.overwrite part start source ++ after)) := by
  rw [store, if_pos, Bytes.overwrite_inside after inside]
  rw [length_append, length_append]
  omega

theorem memcpyS_eq_some {set after : Bytes} {start destMax : Nat} {source : Option Bytes} :
    memcpyS set start destMax source = some after ↔
      (destMax ≠ 0 ∧ destMax ≤ memMaxLen) ∧ ∃ bytes, source = some bytes ∧
        bytes.length ≤ destMax ∧ Bytes.overwrite set start bytes = after := by
  unfold memcpyS
  by_cases outside : destMax = 0 ∨ destMax > memMaxLen
  · rw [if_pos outside]
    exact iff_of_false (some_ne_none _).symm fun inside => by omega
  rw [if_neg outside]
  cases source with
  | none =>
    refine iff_of_false (some_ne_none _).symm fun ⟨_, bytes, given, _⟩ => ?_
    cases given
  | some bytes =>
    dsimp only
    by_cases long : bytes.length > destMax
    · rw [if_pos long]
      refine iff_of_false (some_ne_none _).symm fun ⟨_, other, given, short, _⟩ => ?_
      rw [← some_inj.mp given] at short
      omega
    · rw [if_neg long, some_inj]
      constructor
      · exact fun equal => ⟨by omega, bytes, rfl, by omega, equal⟩
      · rintro ⟨_, other, given, _, equal⟩
        rwa [some_inj.mp given]

theorem memcpyS_eq_none {set bytes : Bytes} {start destMax : Nat}
    (failed : memcpyS set start destMax (some bytes) = none) :
    destMax = 0 ∨ destMax > memMaxLen ∨ bytes.length > destMax := by
  by_contra fits
  have done := (@memcpyS_eq_some set _ start destMax (some bytes)).mpr
    ⟨⟨by omega, by omega⟩, bytes, rfl, by omega, rfl⟩
  exact some_ne_none _ (done.symm.trans failed)

theorem length_memory (source : Nat → BitVec 8) (address size : Nat) :
    (memory source address size).length = size := by
  rw [memory, length_map, length_range]

namespace HksParam

variable (param : HksParam abi)

theorem tag_setBlobData (pointer : Nat) : (param.setBlobData pointer).tag = param.tag := by
  rw [tag, setBlobData, Bytes.slice_overwrite_before (by rw [Abi.blobDataAt]; omega)
    (by rw [param.length, Abi.blobDataAt, Abi.paramSize]; omega), ← tag]

theorem hasBlob_setBlobData (pointer : Nat) :
    (param.setBlobData pointer).hasBlob = param.hasBlob := by
  rw [hasBlob, tag_setBlobData, ← hasBlob]

theorem blobSize_setBlobData (pointer : Nat) :
    (param.setBlobData pointer).blobSize = param.blobSize := by
  have wide := abi.four_le_pointerSize
  rw [blobSize, setBlobData, Bytes.slice_overwrite_before
    (by rw [Abi.blobDataAt, blobSizeAt]; omega)
    (by rw [param.length, Abi.blobDataAt, Abi.paramSize]; omega), ← blobSize]

theorem blobData_setBlobData {pointer : Nat} (fits : pointer < 256 ^ abi.pointerSize) :
    (param.setBlobData pointer).blobData = pointer := by
  have written := @Bytes.slice_overwrite param.bytes (Bytes.ofNat abi.pointerSize pointer)
    abi.blobDataAt (by rw [param.length, Abi.blobDataAt, Abi.paramSize]; omega)
  rw [Bytes.length_ofNat] at written
  rw [blobData, setBlobData, written, Bytes.toNat_ofNat _ _ fits]

end HksParam

/-! ### The loop -/

/-- The parameters with their blobs one after the other from an address on. -/
def relocate (start : Nat) : List (HksParam abi) → List (HksParam abi)
  | [] => []
  | param :: rest =>
      if param.hasBlob then
        param.setBlobData start :: relocate (start + param.blobSize.toNat) rest
      else param :: relocate start rest

/-- The bytes of all the blobs. -/
def contents (source : Nat → BitVec 8) (params : List (HksParam abi)) : Bytes :=
  params.flatMap fun param =>
    if param.hasBlob then memory source param.blobData param.blobSize.toNat else []

/-- What is behind the parameters, once the blobs are copied there from a place on. -/
def filled (copy : Option (Nat → BitVec 8)) (start : Nat) (params : List (HksParam abi))
    (data : Bytes) : Bytes :=
  match copy with
  | none => data
  | some source => Bytes.overwrite data start (contents source params)

/-- The blobs can be copied: each has an address, and a byte is left to write when it is its turn.
-/
def Copyable : List (HksParam abi) → Prop
  | [] => True
  | param :: rest =>
      (param.hasBlob = true → param.blobData ≠ 0 ∧ 0 < blobLens (param :: rest)) ∧ Copyable rest

theorem blobLens_cons (param : HksParam abi) (rest : List (HksParam abi)) :
    blobLens (param :: rest) = param.blobLen + blobLens rest := by
  rw [blobLens, map_cons, sum_cons, ← blobLens]

theorem length_contents (source : Nat → BitVec 8) (params : List (HksParam abi)) :
    (contents source params).length = blobLens params := by
  induction params with
  | nil => rfl
  | cons param rest hypothesis =>
    rw [contents, flatMap_cons, length_append, ← contents, hypothesis,
      blobLens_cons, HksParam.blobLen]
    split
    · rw [length_memory]
    · rfl

theorem contents_cons (source : Nat → BitVec 8) (param : HksParam abi)
    (rest : List (HksParam abi)) :
    contents source (param :: rest) = contents source [param] ++ contents source rest := by
  rw [contents, contents, contents, flatMap_singleton, flatMap_cons]

theorem filled_cons {copy : Option (Nat → BitVec 8)} {start : Nat} {param : HksParam abi}
    {rest : List (HksParam abi)} {data : Bytes}
    (inside : copy ≠ none → start + param.blobLen ≤ data.length) :
    filled copy (start + param.blobLen) rest (filled copy start [param] data) =
      filled copy start (param :: rest) data := by
  cases copy with
  | none => rfl
  | some source =>
    have length : (contents source [param]).length = param.blobLen := by
      rw [length_contents]
      rfl
    rw [filled, filled, filled, contents_cons source param rest, ← length,
      Bytes.overwrite_overwrite]
    rw [length]
    exact inside (some_ne_none _)

theorem length_filled {copy : Option (Nat → BitVec 8)} {start : Nat}
    {params : List (HksParam abi)} {data : Bytes}
    (inside : copy ≠ none → start + blobLens params ≤ data.length) :
    (filled copy start params data).length = data.length := by
  cases copy with
  | none => rfl
  | some source =>
    rw [filled, Bytes.length_overwrite]
    rw [length_contents]
    exact inside (some_ne_none _)

theorem isAdditionOverflow_eq_true {first second : BitVec 32} :
    isAdditionOverflow first second = true ↔ 2 ^ 32 ≤ first.toNat + second.toNat := by
  rw [isAdditionOverflow, decide_eq_true_iff]
  omega

section Loop

variable {address : Nat} {copy : Option (Nat → BitVec 8)} {size offset : BitVec 32} {index : Nat}
  {before data : Bytes}

theorem load_param (param : HksParam abi) (after : Bytes) {start width : Nat}
    (place : before.length = headerSize + abi.paramSize * index)
    (inside : start + width ≤ abi.paramSize) :
    load (before ++ (param.bytes ++ after)) (headerSize + abi.paramSize * index + start) width =
      .ok (Bytes.toNat (Bytes.slice param.bytes start width)) := by
  rw [← place]
  exact load_inside after (by rwa [param.length])

theorem copyBlob_cases (param : HksParam abi) (between : Bytes)
    (place : before.length = headerSize + abi.paramSize * index)
    (behind : before.length + abi.paramSize + between.length ≤ offset.toNat)
    (long : size.toNat ≤ before.length + abi.paramSize + between.length + data.length)
    (within : offset ≤ size) (small : size.toNat ≤ paramSetMaxSize) :
    (∃ failure, copyBlob abi copy size offset index param.blobSize
        (before ++ (param.bytes ++ (between ++ data))) = .error failure ∧ failure ≠ .outside ∧
        (offset.toNat + param.blobSize.toNat ≤ size.toNat →
          copy ≠ none ∧ (param.blobData = 0 ∨ size = offset))) ∨
      copyBlob abi copy size offset index param.blobSize
          (before ++ (param.bytes ++ (between ++ data))) =
        .ok (before ++ (param.bytes ++ (between ++ match copy with
          | none => data
          | some source => Bytes.overwrite data
              (offset.toNat - (before.length + abi.paramSize + between.length))
              (memory source param.blobData param.blobSize.toNat)))) ∧
        (copy ≠ none → param.blobData ≠ 0 ∧ offset ≠ size ∧
          offset.toNat + param.blobSize.toNat ≤ size.toNat) := by
  have left : (size - offset).toNat = size.toNat - offset.toNat := BitVec.toNat_sub_of_le within
  have less : offset.toNat ≤ size.toNat := within
  have max : paramSetMaxSize < memMaxLen := by decide
  have differ : size ≠ offset ↔ size.toNat ≠ offset.toNat := not_congr BitVec.toNat_inj.symm
  cases copy with
  | none => exact .inr ⟨rfl, fun absent => absurd rfl absent⟩
  | some source =>
    rw [copyBlob]
    have data_ := @load_param abi index before param (between ++ data) abi.blobDataAt
      abi.pointerSize place (by rw [Abi.blobDataAt, Abi.paramSize]; omega)
    change _ = Except.ok param.blobData at data_
    rw [data_, ok_bind]
    cases copied : memcpyS (before ++ (param.bytes ++ (between ++ data))) offset.toNat
        (size - offset).toNat (if param.blobData = 0 then none
          else some (memory source param.blobData param.blobSize.toNat)) with
    | none =>
      refine .inl ⟨.insufficientMemory, rfl, Failure.noConfusion, fun short =>
        ⟨some_ne_none _, ?_⟩⟩
      by_contra good
      obtain ⟨given, differs⟩ := not_or.mp good
      have apart := differ.mp differs
      rw [if_neg given] at copied
      have failed := memcpyS_eq_none copied
      rw [length_memory] at failed
      omega
    | some after =>
      obtain ⟨⟨nonzero, _⟩, bytes, given, fits, rfl⟩ := memcpyS_eq_some.mp copied
      obtain ⟨present, same⟩ := ite_none_left_eq_some.mp given
      obtain rfl := some_inj.mp same
      rw [length_memory] at fits
      refine .inr ⟨?_, fun _ => ⟨present, fun equal => ?_, by omega⟩⟩
      · have split : before ++ (param.bytes ++ (between ++ data)) =
            (before ++ (param.bytes ++ between)) ++ (data ++ []) := by
          simp only [append_assoc, append_nil]
        have start : offset.toNat = (before ++ (param.bytes ++ between)).length +
            (offset.toNat - (before.length + abi.paramSize + between.length)) := by
          rw [length_append, length_append, param.length]
          omega
        have copied := @Bytes.overwrite_inside (before ++ (param.bytes ++ between)) data
          (memory source param.blobData param.blobSize.toNat) []
          (offset.toNat - (before.length + abi.paramSize + between.length))
          (by rw [length_memory]; omega)
        rw [← start, ← split, append_nil] at copied
        rw [copied]
        simp only [append_assoc]
      · exact nonzero (by rw [equal, BitVec.sub_self]; rfl)

theorem freshBlob_cases (param : HksParam abi) (between : Bytes) (blob : param.hasBlob = true)
    (place : before.length = headerSize + abi.paramSize * index)
    (behind : before.length + abi.paramSize + between.length ≤ offset.toNat)
    (long : size.toNat ≤ before.length + abi.paramSize + between.length + data.length)
    (within : offset ≤ size) (small : size.toNat ≤ paramSetMaxSize) :
    (∃ failure, freshBlob abi address copy size offset index
        (before ++ (param.bytes ++ (between ++ data))) = .error failure ∧ failure ≠ .outside ∧
        (offset.toNat + param.blobLen ≤ size.toNat →
          copy ≠ none ∧ (param.blobData = 0 ∨ size = offset))) ∨
      ∃ next, freshBlob abi address copy size offset index
          (before ++ (param.bytes ++ (between ++ data))) =
        .ok (next, before ++ ((param.setBlobData (address + offset.toNat)).bytes ++ (between ++
          filled copy (offset.toNat - (before.length + abi.paramSize + between.length)) [param]
            data))) ∧
        next.toNat = offset.toNat + param.blobLen ∧
        (copy ≠ none → param.blobData ≠ 0 ∧ offset ≠ size ∧
          offset.toNat + param.blobLen ≤ size.toNat) := by
  have size_ := @load_param abi index before param (between ++ data) blobSizeAt 4 place
    (by rw [blobSizeAt, Abi.paramSize]; have := abi.four_le_pointerSize; omega)
  have lens : param.blobLen = param.blobSize.toNat := if_pos blob
  have read : BitVec.ofNat 32 (Bytes.toNat (Bytes.slice param.bytes blobSizeAt 4)) =
      param.blobSize := rfl
  rw [freshBlob, size_, ok_bind, read, lens]
  by_cases overflow : isAdditionOverflow offset param.blobSize = true
  · rw [if_pos overflow]
    rw [isAdditionOverflow_eq_true] at overflow
    exact .inl ⟨.invalidArgument, rfl, Failure.noConfusion, fun short => by omega⟩
  rw [if_neg overflow]
  rw [isAdditionOverflow_eq_true] at overflow
  have sum : (offset + param.blobSize).toNat = offset.toNat + param.blobSize.toNat := by
    rw [BitVec.toNat_add_of_lt (by omega)]
  rcases @copyBlob_cases abi copy size offset index before data param between place behind long
    within small with ⟨failure, failed, good, why⟩ | ⟨copied, facts⟩
  · rw [failed]
    exact .inl ⟨failure, rfl, good, why⟩
  rw [copied, ok_bind]
  have written : ∀ after : Bytes, store (before ++ (param.bytes ++ after))
      (headerSize + abi.paramSize * index + abi.blobDataAt)
      (Bytes.ofNat abi.pointerSize (address + offset.toNat)) =
        .ok (before ++ ((param.setBlobData (address + offset.toNat)).bytes ++ after)) := by
    intro after
    rw [← place]
    refine store_inside after ?_
    rw [Bytes.length_ofNat, param.length, Abi.blobDataAt, Abi.paramSize]
    omega
  rw [written, ok_bind]
  refine .inr ⟨offset + param.blobSize, ?_, sum, facts⟩
  cases copy with
  | none => rfl
  | some source =>
    rw [filled, contents, flatMap_singleton, if_pos blob]

theorem paramBytes_cons (param : HksParam abi) (rest : List (HksParam abi)) :
    paramBytes (param :: rest) = param.bytes ++ paramBytes rest := by
  rw [paramBytes, flatMap_cons, ← paramBytes]

theorem length_paramBytes (params : List (HksParam abi)) :
    (paramBytes params).length = abi.paramSize * params.length := by
  induction params with
  | nil => rfl
  | cons param rest hypothesis =>
    rw [paramBytes_cons, length_append, param.length, hypothesis, length_cons,
      Nat.mul_succ, Nat.add_comm]

/-- What the loop does with the parameters that are left: it never leaves the set, and unless it
fails their blobs follow each other from the offset on; when they fill the set exactly, it fails
only if a blob cannot be copied. -/
theorem freshLoop_cases (todo : List (HksParam abi))
    (place : before.length = headerSize + abi.paramSize * index)
    (behind : before.length + abi.paramSize * todo.length ≤ offset.toNat)
    (long : size.toNat ≤ before.length + abi.paramSize * todo.length + data.length)
    (small : size.toNat ≤ paramSetMaxSize) :
    (∃ failure, freshLoop abi address copy size todo.length index offset
        (before ++ (paramBytes todo ++ data)) = .error failure ∧ failure ≠ .outside ∧
        (offset.toNat + blobLens todo = size.toNat → copy ≠ none ∧ ¬Copyable todo)) ∨
      ∃ next, freshLoop abi address copy size todo.length index offset
          (before ++ (paramBytes todo ++ data)) =
        .ok (next, before ++ (paramBytes (relocate (address + offset.toNat) todo) ++
          filled copy (offset.toNat - (before.length + abi.paramSize * todo.length)) todo data)) ∧
        next.toNat = offset.toNat + blobLens todo ∧
        (offset.toNat + blobLens todo = size.toNat → copy = none ∨ Copyable todo) := by
  induction todo generalizing before data index offset with
  | nil =>
    refine .inr ⟨offset, ?_, rfl, fun _ => .inr trivial⟩
    cases copy with
    | none => rfl
    | some source => rw [filled, contents, flatMap_nil, Bytes.overwrite_nil]; rfl
  | cons param rest hypothesis =>
    have count : abi.paramSize * (rest.length + 1) =
        abi.paramSize + abi.paramSize * rest.length := by
      rw [Nat.mul_succ, Nat.add_comm]
    have next : ∀ other : HksParam abi,
        (before ++ other.bytes).length = headerSize + abi.paramSize * (index + 1) := by
      intro other
      rw [length_append, other.length, place, Nat.mul_succ, Nat.add_assoc]
    have shift : ∀ other : HksParam abi, (before ++ other.bytes).length =
        before.length + abi.paramSize := by
      intro other
      rw [length_append, other.length]
    rw [length_cons] at behind long ⊢
    rw [freshLoop]
    by_cases above : size < offset
    · rw [if_pos above]
      have above : size.toNat < offset.toNat := above
      exact .inl ⟨.invalidArgument, rfl, Failure.noConfusion, fun same => by omega⟩
    rw [if_neg above]
    have within : offset.toNat ≤ size.toNat := Nat.le_of_not_lt above
    have tag_ := @load_param abi index before param (paramBytes rest ++ data) 0 4 place
      (by rw [Abi.paramSize]; omega)
    rw [Nat.add_zero] at tag_
    rw [paramBytes_cons, append_assoc, tag_, ok_bind]
    have read : isBytes (.ofNat 32 (Bytes.toNat (Bytes.slice param.bytes 0 4))) =
        param.hasBlob := rfl
    rw [read, relocate, Copyable, blobLens_cons]
    rw [count] at behind long ⊢
    by_cases blob : param.hasBlob = true
    · rw [if_pos blob, if_pos blob]
      have between := length_paramBytes rest
      rcases @freshBlob_cases abi address copy size offset index before data param
        (paramBytes rest) blob place (by omega) (by omega) within small with
          ⟨failure, failed, good, why⟩ | ⟨behindBlob, fresh, sum, facts⟩
      · rw [failed]
        refine .inl ⟨failure, rfl, good, fun same => ?_⟩
        obtain ⟨copies, cause⟩ := why (by omega)
        refine ⟨copies, fun copyable => ?_⟩
        obtain ⟨present, some_⟩ := copyable.1 blob
        rcases cause with null | full
        · exact present null
        · rw [full] at same
          omega
      · rw [fresh, ok_bind, ← append_assoc before]
        have start : offset.toNat - (before.length + abi.paramSize + (paramBytes rest).length) =
            offset.toNat - (before.length + (abi.paramSize + abi.paramSize * rest.length)) := by
          omega
        have length : (filled copy (offset.toNat - (before.length + (abi.paramSize +
            abi.paramSize * rest.length))) [param] data).length = data.length := by
          refine length_filled fun copies => ?_
          have short := (facts copies).2.2
          change _ + (param.blobLen + 0) ≤ _
          omega
        rw [start]
        have shifted := shift (param.setBlobData (address + offset.toNat))
        have lens : param.blobLen = param.blobSize.toNat := if_pos blob
        rcases @hypothesis behindBlob (index + 1) _ (filled copy (offset.toNat -
          (before.length + (abi.paramSize + abi.paramSize * rest.length))) [param] data)
          (next (param.setBlobData (address + offset.toNat))) (by omega) (by omega) with
            ⟨failure, failed, good, why⟩ | ⟨last, done, total, copies⟩
        · refine .inl ⟨failure, failed, good, fun same => ?_⟩
          obtain ⟨copies, uncopied⟩ := why (by omega)
          exact ⟨copies, fun copyable => uncopied copyable.2⟩
        refine .inr ⟨last, ?_, by omega, fun same => ?_⟩
        · have together := @filled_cons abi copy (offset.toNat - (before.length +
            (abi.paramSize + abi.paramSize * rest.length))) param rest data fun present => by
              have short := (facts present).2.2
              omega
          have step : behindBlob.toNat - ((before ++ (param.setBlobData
              (address + offset.toNat)).bytes).length + abi.paramSize * rest.length) =
              offset.toNat - (before.length + (abi.paramSize + abi.paramSize * rest.length)) +
                param.blobLen := by
            omega
          rw [done, step, together, paramBytes_cons, sum, lens]
          simp only [append_assoc, Nat.add_assoc]
        · by_cases absent : copy = none
          · exact .inl absent
          obtain ⟨present, differs, short⟩ := facts absent
          refine .inr ⟨fun _ => ⟨present, ?_⟩, (copies (by omega)).resolve_left absent⟩
          have apart := mt BitVec.toNat_inj.mp differs
          omega
    · rw [if_neg blob, if_neg blob, ← append_assoc before]
      have none_ : param.blobLen = 0 := if_neg blob
      have shifted := shift param
      rcases @hypothesis offset (index + 1) (before ++ param.bytes) data (next param)
        (by omega) (by omega) with ⟨failure, failed, good, why⟩ | ⟨last, done, total, copies⟩
      · refine .inl ⟨failure, failed, good, fun same => ?_⟩
        obtain ⟨copies, uncopied⟩ := why (by omega)
        exact ⟨copies, fun copyable => uncopied copyable.2⟩
      refine .inr ⟨last, ?_, by omega, fun same => ?_⟩
      · have together := @filled_cons abi copy (offset.toNat - (before.length +
          (abi.paramSize + abi.paramSize * rest.length))) param rest data fun _ => by omega
        have alone : filled copy (offset.toNat - (before.length +
            (abi.paramSize + abi.paramSize * rest.length))) [param] data = data := by
          cases copy with
          | none => rfl
          | some source =>
            rw [filled, contents, flatMap_singleton, if_neg blob, Bytes.overwrite_nil]
        have step : offset.toNat - ((before ++ param.bytes).length +
            abi.paramSize * rest.length) = offset.toNat - (before.length + (abi.paramSize +
              abi.paramSize * rest.length)) := by
          omega
        rw [alone, none_, Nat.add_zero] at together
        rw [done, step, together, paramBytes_cons]
        simp only [append_assoc]
      · exact (copies (by omega)).imp_right fun copyable =>
          ⟨fun present => absurd present blob, copyable⟩

end Loop

/-! ### A set as a header, parameters and the rest -/

theorem takeParams_append (params : List (HksParam abi)) (rest : Bytes) :
    takeParams abi params.length (paramBytes params ++ rest) = params := by
  induction params with
  | nil => rfl
  | cons param others hypothesis =>
    have long : abi.paramSize ≤ (param.bytes ++ (paramBytes others ++ rest)).length := by
      rw [length_append, param.length]
      exact Nat.le_add_right _ _
    rw [paramBytes_cons, append_assoc, length_cons, takeParams, dif_pos long]
    exact cons_eq_cons.mpr ⟨HksParam.ext (take_left' param.length), by
      rw [drop_left' param.length, hypothesis]⟩

theorem paramBytes_takeParams {count : Nat} {bytes : Bytes}
    (long : abi.paramSize * count ≤ bytes.length) :
    paramBytes (takeParams abi count bytes) ++ bytes.drop (abi.paramSize * count) = bytes ∧
      (takeParams abi count bytes).length = count := by
  induction count generalizing bytes with
  | zero => exact ⟨rfl, rfl⟩
  | succ count hypothesis =>
    rw [Nat.mul_succ] at long
    have first : abi.paramSize ≤ bytes.length := by omega
    have rest := @hypothesis (bytes.drop abi.paramSize) (by rw [length_drop]; omega)
    rw [takeParams, dif_pos first]
    refine ⟨?_, congrArg (· + 1) rest.2⟩
    rw [paramBytes_cons, Nat.mul_succ, Nat.add_comm, ← drop_drop, append_assoc, rest.1,
      take_append_drop]

/-- The two numbers of a header. -/
structure Header (header : Bytes) (size paramsCnt : Nat) : Prop where
  length : header.length = headerSize
  size : Bytes.toNat (Bytes.slice header 0 4) = size
  paramsCnt : Bytes.toNat (Bytes.slice header 4 4) = paramsCnt

section Headers

variable {header data : Bytes} {size : Nat} {params : List (HksParam abi)}

section

variable (head : Header header size params.length)
include head

theorem Header.slice (rest : Bytes) {start width : Nat}
    (inside : start + width ≤ headerSize) :
    Bytes.slice (header ++ rest) start width = Bytes.slice header start width := by
  have read := @Bytes.slice_inside [] header rest start width (by rwa [head.length])
  rwa [length_nil, Nat.zero_add] at read

theorem Header.load (rest : Bytes) {start width : Nat}
    (inside : start + width ≤ headerSize) :
    load (header ++ rest) start width = .ok (Bytes.toNat (Bytes.slice header start width)) := by
  rw [ParamSet.load, if_pos, head.slice rest inside]
  rw [length_append, head.length]
  omega

theorem paramsOf_append :
    paramsOf abi (header ++ (paramBytes params ++ data)) = params := by
  rw [paramsOf, head.slice _ (by decide), head.paramsCnt, drop_left' head.length,
    takeParams_append]

end

theorem freshParamSet_cases (address : Nat) (copy : Option (Nat → BitVec 8))
    (head : Header header size params.length) (small : size ≤ paramSetMaxSize)
    (inside : headerSize + abi.paramSize * params.length ≤ size)
    (long : size ≤ headerSize + abi.paramSize * params.length + data.length) :
    (∃ failure, freshParamSet abi address copy (header ++ (paramBytes params ++ data)) =
        .error failure ∧ failure ≠ .outside ∧
        (setSize params = size → copy ≠ none ∧ ¬Copyable params)) ∨
      freshParamSet abi address copy (header ++ (paramBytes params ++ data)) =
        .ok (header ++ (paramBytes (relocate (address + (headerSize + abi.paramSize *
          params.length)) params) ++ filled copy 0 params data)) ∧
        setSize params = size ∧ (copy = none ∨ Copyable params) := by
  have max : paramSetMaxSize < 2 ^ 32 := by decide
  have size_ : (BitVec.ofNat 32 size).toNat = size := Nat.mod_eq_of_lt (by omega)
  have offset_ : (BitVec.ofNat 32 (headerSize + abi.paramSize * params.length)).toNat =
      headerSize + abi.paramSize * params.length := Nat.mod_eq_of_lt (by omega)
  have set_ : setSize params = headerSize + abi.paramSize * params.length + blobLens params := rfl
  rw [freshParamSet, head.load _ (by decide), ok_bind, head.load _ (by decide), ok_bind, head.size,
    head.paramsCnt]
  rcases @freshLoop_cases abi address copy (.ofNat 32 size)
    (.ofNat 32 (headerSize + abi.paramSize * params.length)) 0 header data params
    (by rw [head.length, Nat.mul_zero, Nat.add_zero]) (by rw [offset_, head.length])
    (by rw [size_, head.length]; exact long) (by rwa [size_]) with
      ⟨failure, failed, good, why⟩ | ⟨last, done, total, copies⟩
  · rw [failed]
    exact .inl ⟨failure, rfl, good, fun same => why (by omega)⟩
  rw [done, ok_bind, offset_, head.length, Nat.sub_self]
  by_cases same : size = last.toNat
  · rw [if_neg (not_not.mpr same)]
    exact .inr ⟨rfl, by omega, copies (by omega)⟩
  · rw [if_pos same]
    exact .inl ⟨.invalidArgument, rfl, Failure.noConfusion, fun equal => by omega⟩

end Headers

/-! ### Sets from bytes -/

/-- What `HksCheckParamSet` makes sure of. -/
structure Checked (abi : Abi) (set : Bytes) (size : BitVec 32) : Prop where
  low : headerSize ≤ size.toNat
  high : size.toNat ≤ paramSetMaxSize
  paramsCnt : abi.paramSize * Bytes.toNat (Bytes.slice set 4 4) ≤ size.toNat - headerSize
  claimed : Bytes.toNat (Bytes.slice set 0 4) = size.toNat

theorem hksCheckParamSet_cases {set : Bytes} {size : BitVec 32}
    (long : headerSize ≤ size.toNat → headerSize ≤ set.length) :
    (hksCheckParamSet abi (some set) size = .ok () ∧ Checked abi set size) ∨
      (hksCheckParamSet abi (some set) size = .error .invalidArgument ∧ ¬Checked abi set size) := by
  have positive : 0 < abi.paramSize := by
    rw [Abi.paramSize]
    omega
  have eight : headerSize = 8 := rfl
  rw [hksCheckParamSet]
  by_cases range : size.toNat < headerSize ∨ size.toNat > paramSetMaxSize
  · rw [if_pos range]
    exact .inr ⟨rfl, fun ⟨low, high, _, _⟩ => by omega⟩
  rw [if_neg range]
  have first : load set 0 4 = .ok (Bytes.toNat (Bytes.slice set 0 4)) := if_pos (by omega)
  have second : load set 4 4 = .ok (Bytes.toNat (Bytes.slice set 4 4)) := if_pos (by omega)
  rw [first, ok_bind]
  by_cases same : Bytes.toNat (Bytes.slice set 0 4) = size.toNat
  · rw [if_neg (not_not.mpr same), second, ok_bind]
    have count := @Nat.le_div_iff_mul_le abi.paramSize (Bytes.toNat (Bytes.slice set 4 4))
      (size.toNat - headerSize) positive
    rw [Nat.mul_comm] at count
    by_cases many : Bytes.toNat (Bytes.slice set 4 4) > (size.toNat - headerSize) / abi.paramSize
    · rw [if_pos many]
      exact .inr ⟨rfl, fun ⟨_, _, fits, _⟩ => Nat.not_le.mpr many (count.mpr fits)⟩
    · rw [if_neg many]
      exact .inl ⟨rfl, by omega, by omega, count.mp (Nat.le_of_not_lt many), same⟩
  · rw [if_pos same]
    exact .inr ⟨rfl, fun checked => same checked.claimed⟩

theorem Checked.split {set : Bytes} {size : BitVec 32} (checked : Checked abi set size)
    (length : set.length = size.toNat) : ∃ header data, ∃ params : List (HksParam abi),
      set = header ++ (paramBytes params ++ data) ∧ Header header size.toNat params.length := by
  have low := checked.low
  have inside := checked.paramsCnt
  have chunks := @paramBytes_takeParams abi (Bytes.toNat (Bytes.slice set 4 4))
    (set.drop headerSize) (by rw [length_drop]; omega)
  have front : ∀ start width, start + width ≤ headerSize →
      Bytes.slice (set.take headerSize) start width = Bytes.slice set start width := by
    intro start width bound
    rw [Bytes.slice, Bytes.slice, drop_take, take_take, Nat.min_eq_left (by omega)]
  refine ⟨set.take headerSize, (set.drop headerSize).drop (abi.paramSize *
    Bytes.toNat (Bytes.slice set 4 4)), takeParams abi (Bytes.toNat (Bytes.slice set 4 4))
      (set.drop headerSize), ?_, length_take_of_le (by omega), ?_, ?_⟩
  · rw [chunks.1, take_append_drop]
  · rw [front 0 4 (by decide), checked.claimed]
  · rw [front 4 4 (by decide), chunks.2]

theorem segments_relocate (params : List (HksParam abi)) (start : Nat)
    (space : start + blobLens params < 256 ^ abi.pointerSize) :
    Segments start (blobs (relocate start params)) (start + blobLens params) := by
  induction params generalizing start with
  | nil => rfl
  | cons param rest hypothesis =>
    rw [blobLens_cons] at space ⊢
    rw [relocate, blobs]
    by_cases blob : param.hasBlob = true
    · have lens : param.blobLen = param.blobSize.toNat := if_pos blob
      have moved : (param.setBlobData start).hasBlob = true := by rwa [param.hasBlob_setBlobData]
      rw [if_pos blob, filter_cons_of_pos moved, map_cons, param.blobSize_setBlobData,
        param.blobData_setBlobData (by omega), ← lens, ← Nat.add_assoc]
      exact ⟨rfl, hypothesis _ (by omega)⟩
    · have lens : param.blobLen = 0 := if_neg blob
      rw [if_neg blob, filter_cons_of_neg blob, lens, Nat.zero_add]
      exact hypothesis _ (by omega)

theorem length_relocate (start : Nat) (params : List (HksParam abi)) :
    (relocate start params).length = params.length := by
  induction params generalizing start with
  | nil => rfl
  | cons param rest hypothesis =>
    rw [relocate]
    split
    · exact congrArg (· + 1) (hypothesis _)
    · exact congrArg (· + 1) (hypothesis _)

theorem hksGetParamSet_checked (heap : Heap abi) {header data : Bytes} {size : BitVec 32}
    {params : List (HksParam abi)}
    (checked : Checked abi (header ++ (paramBytes params ++ data)) size)
    (head : Header header size.toNat params.length)
    (length : (header ++ (paramBytes params ++ data)).length = size.toNat) :
    hksGetParamSet heap (some (header ++ (paramBytes params ++ data))) size true =
      match heap.malloc .get size.toNat with | none => .error .mallocFail | some address => (do
          let fresh ← freshParamSet abi address none (header ++ (paramBytes params ++ data))
          .ok (address, fresh)) := by
  have passed : hksCheckParamSet abi (some (header ++ (paramBytes params ++ data))) size =
      .ok () := by
    rcases @hksCheckParamSet_cases abi (header ++ (paramBytes params ++ data)) size (by omega) with
      ⟨passed, _⟩ | ⟨_, failed⟩
    · exact passed
    · exact absurd checked failed
  have whole : loadBytes (header ++ (paramBytes params ++ data)) 0 size.toNat =
      .ok (header ++ (paramBytes params ++ data)) := by
    rw [loadBytes, if_pos (by omega), Bytes.slice, drop_zero, ← length, take_length]
  rw [hksGetParamSet, passed, ok_bind, head.load _ (by decide), ok_bind, head.size]
  cases heap.malloc .get size.toNat with
  | none => rfl
  | some address =>
    rw [whole]
    rfl

theorem Checked.inside {header data : Bytes} {size : BitVec 32} {params : List (HksParam abi)}
    (checked : Checked abi (header ++ (paramBytes params ++ data)) size)
    (head : Header header size.toNat params.length) :
    headerSize + abi.paramSize * params.length ≤ size.toNat := by
  have low := checked.low
  have fits := checked.paramsCnt
  rw [head.slice _ (by decide), head.paramsCnt] at fits
  omega

theorem contained_of_segments {header data : Bytes} {size address : Nat}
    {params : List (HksParam abi)} (head : Header header size params.length)
    (length : (header ++ (paramBytes params ++ data)).length = size)
    (fill : Segments (address + (headerSize + abi.paramSize * params.length)) (blobs params)
      (address + size)) : Contained abi address (header ++ (paramBytes params ++ data)) := by
  refine ⟨by rw [head.slice _ (by decide), head.size, length], ?_, ?_, ?_⟩
  · rw [paramsOf_append head, length]
    exact fill
  · rw [paramsOf_append head, length]
    exact fun blob member => fill.inside member
  · rw [paramsOf_append head]
    exact fill.apart

/-- For every byte string and what is claimed to be its size, which is its length: nothing outside
of it is read or written, and when a set is made of it, the blobs of the set are contained in it. -/
theorem contained_of_hksGetParamSet (heap : Heap abi) (set : Bytes) (size : BitVec 32) (out : Bool)
    (length : set.length = size.toNat) : hksGetParamSet heap (some set) size out ≠ .error .outside ∧
      ∀ address made, hksGetParamSet heap (some set) size out = .ok (address, made) →
        Contained abi address made ∧ made.length = size.toNat := by
  have failing : ∀ failure, failure ≠ .outside →
      (Except.error failure : Except Failure (Nat × Bytes)) ≠ .error .outside ∧
        ∀ address made, Except.error failure = .ok (address, made) →
          Contained abi address made ∧ made.length = size.toNat :=
    fun failure good => ⟨fun equal => good (Except.error.inj equal), fun _ _ equal => by
      cases equal⟩
  rcases @hksCheckParamSet_cases abi set size (by omega) with ⟨passed, checked⟩ | ⟨failed, _⟩
  · obtain ⟨header, data, params, rfl, head⟩ := checked.split length
    cases out with
    | false =>
      rw [hksGetParamSet, passed]
      exact failing .nullPointer Failure.noConfusion
    | true =>
      rw [hksGetParamSet_checked heap checked head length]
      cases allocated : heap.malloc .get size.toNat with
      | none => exact failing .mallocFail Failure.noConfusion
      | some address =>
        have total : header.length + (abi.paramSize * params.length + data.length) =
            size.toNat := by
          rw [← length, length_append, length_append, length_paramBytes]
        have eight := head.length
        have space := heap.fits .get size.toNat address allocated
        dsimp only
        rcases @freshParamSet_cases abi header data size.toNat params address none head checked.high
          (checked.inside head) (by omega) with ⟨failure, failed, good, _⟩ | ⟨done, same, _⟩
        · rw [failed]
          exact failing failure good
        rw [done]
        refine ⟨fun equal => (by cases equal), fun _ made equal => ?_⟩
        obtain ⟨rfl, rfl⟩ := Prod.mk.inj (Except.ok.inj equal)
        have sum : headerSize + abi.paramSize * params.length + blobLens params = size.toNat := same
        have moved : (header ++ (paramBytes (relocate (address + (headerSize + abi.paramSize *
            params.length)) params) ++ data)).length = size.toNat := by
          rw [← length, length_append, length_append, length_append,
            length_append, length_paramBytes, length_paramBytes, length_relocate]
        have fill := segments_relocate params
          (address + (headerSize + abi.paramSize * params.length)) (by omega)
        rw [Nat.add_assoc, sum] at fill
        exact ⟨contained_of_segments (by rwa [length_relocate]) moved (by rwa [length_relocate]),
          moved⟩
  · rw [hksGetParamSet, failed]
    exact failing .invalidArgument Failure.noConfusion

end Loading

def sampleAddress : Allocation → Nat
  | .init => 0x1000
  | .build => 0x3000
  | .get => 0x5000

/-- Memory for everything small. -/
def sampleHeap : Heap .ilp32 where
  malloc := fun allocation size => if size ≤ 4096 then some (sampleAddress allocation) else none
  content := fun _ _ => 0xA5
  fits := fun allocation size address allocated => by
    obtain ⟨small, same⟩ := Option.ite_none_right_eq_some.mp allocated
    obtain rfl := Option.some_inj.mp same
    have low : sampleAddress allocation + 4096 < 256 ^ Abi.ilp32.pointerSize := by
      cases allocation <;> decide
    omega

/-- A nonce of some bytes at 0x2000. -/
def sampleNonce (size : BitVec 8) : HksParam .ilp32 :=
  ⟨[9, 0, 0, 0x50, 0, 0, 0, 0, size, 0, 0, 0, 0, 0x20, 0, 0], rfl⟩

/-- A nonce of three bytes, sent from an address that means nothing here. -/
def sampleInput : Bytes :=
  [27, 0, 0, 0, 1, 0, 0, 0] ++ (sampleNonce 3).bytes ++ [4, 5, 6]

def sampleMade : Bytes :=
  [27, 0, 0, 0, 1, 0, 0, 0] ++ ((sampleNonce 3).setBlobData 0x5018).bytes ++ [4, 5, 6]

theorem contained_of_hksGetParamSet_sample :
    hksGetParamSet sampleHeap (some sampleInput) 27 true = .ok (0x5000, sampleMade) ∧
      Contained .ilp32 0x5000 sampleMade :=
  have made : hksGetParamSet sampleHeap (some sampleInput) 27 true = .ok (0x5000, sampleMade) := by
    decide
  ⟨made, ((contained_of_hksGetParamSet sampleHeap sampleInput 27 true rfl).2 _ _ made).1⟩

end TowerSafe.ParamSet
