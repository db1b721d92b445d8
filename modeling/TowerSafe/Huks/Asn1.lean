/-
This file embeds how `hks_asn1.c` writes and reads tags with their lengths and values. A value that
is read lies inside of what it is read from, behind its header and before what remains. What is read
behind insertions is what was inserted when the writer has taken no leading zeros away, and the
descriptors of the insertions point behind what they describe.
-/

import TowerSafe.Library.Reading
import Mathlib.Order.WellFounded

namespace TowerSafe.Asn1

open Library List

abbrev Memory := Nat → BitVec 8

/-! ### Blobs -/

structure HksBlob where
  size : BitVec 32
  data : Nat
  deriving DecidableEq

structure HksAsn1Blob where
  type : BitVec 32
  size : BitVec 32
  data : Nat
  deriving DecidableEq

structure HksAsn1Obj where
  header : HksAsn1Blob
  value : HksAsn1Blob
  deriving DecidableEq

def HksBlob.area (blob : HksBlob) : Area := ⟨blob.data, blob.size.toNat⟩

def HksAsn1Blob.area (blob : HksAsn1Blob) : Area := ⟨blob.data, blob.size.toNat⟩

/-- The return values other than `HKS_SUCCESS`. -/
inductive Failure where
  | invalidArgument
  | insufficientData
  | bufferTooSmall
  deriving DecidableEq

def tagTypeInt : BitVec 32 := 0x02

def tagTypeBitStr : BitVec 32 := 0x03

def tagTypeOctStr : BitVec 32 := 0x04

def tagTypeRaw : BitVec 32 := 0xff000001

def minHeaderLen : BitVec 32 := 3

def maxSize : BitVec 32 := 0x10000 - 0x100

/-! ### Reading -/

def decodeByte (memory : Memory) (ptr : Nat) : Reading Failure (BitVec 32) :=
  ⟨.ok ((memory ptr).setWidth 32), [⟨ptr, 1⟩]⟩

def decodeTwoByte (memory : Memory) (ptr : Nat) : Reading Failure (BitVec 32) :=
  ⟨.ok ((memory ptr).setWidth 32 <<< 8 ||| (memory (ptr + 1)).setWidth 32),
    [⟨ptr, 1⟩, ⟨ptr + 1, 1⟩]⟩

/-- The branches of `Asn1GetObj` on the first byte of the length: the length of the value, and the
address of the first byte behind it. -/
def lengthFrom (memory : Memory) (data : HksBlob) (first : BitVec 32) :
    Reading Failure (Nat × BitVec 32) :=
  if first < 0x80 then
    pure (data.data + 2, first)
  else if first = 0x81 then do
    let length ← decodeByte memory (data.data + 2)
    pure (data.data + 3, length)
  else if first = 0x82 then
    if data.size < minHeaderLen + 1 then
      Reading.fail .insufficientData
    else do
      let length ← decodeTwoByte memory (data.data + 2)
      pure (data.data + 4, length)
  else
    Reading.fail .invalidArgument

def asn1GetObj (memory : Memory) (data : HksBlob) : Reading Failure (HksBlob × HksAsn1Obj) := do
  let type ← decodeByte memory data.data
  let first ← decodeByte memory (data.data + 1)
  let (buf, length) ← lengthFrom memory data first
  let headerSize := BitVec.ofNat 32 (buf - data.data)
  if length > data.size - headerSize then
    Reading.fail .insufficientData
  else
    pure (⟨data.size - headerSize - length, data.data + headerSize.toNat + length.toNat⟩,
      ⟨⟨type, headerSize, data.data⟩, ⟨type, length, buf⟩⟩)

/-- `HksAsn1ExtractTag`, with pointers that are not null. -/
def hksAsn1ExtractTag (memory : Memory) (data : HksBlob) (expectedTag : BitVec 32) :
    Reading Failure (HksBlob × HksAsn1Obj) :=
  if data.size < minHeaderLen then
    Reading.fail .invalidArgument
  else do
    let (next, obj) ← asn1GetObj memory data
    if obj.header.type ≠ expectedTag then
      Reading.fail .invalidArgument
    else
      pure (next, obj)

/-! ### What is read -/

/-- The header, the value and what remains follow one another and are all there is. -/
structure Splits (data : HksBlob) (obj : HksAsn1Obj) (next : HksBlob) : Prop where
  consecutive : Area.Consecutive data.data [obj.header.area, obj.value.area, next.area]
  sizes : obj.header.size.toNat + obj.value.size.toNat + next.size.toNat = data.size.toNat
  header : 2 ≤ obj.header.size.toNat

namespace Splits

variable {data next : HksBlob} {obj : HksAsn1Obj}

theorem inside (splits : Splits data obj next) :
    obj.header.area.Inside data.area ∧ obj.value.area.Inside data.area ∧
      next.area.Inside data.area := by
  have all := splits.consecutive.inside (le_refl data.area.addr) fun area last => by
    rw [← Option.some.inj last]
    obtain ⟨first, second, third, -⟩ := splits.consecutive
    have sizes := splits.sizes
    simp only [Area.end_, HksBlob.area, HksAsn1Blob.area, List.getLast] at first second third ⊢
    omega
  exact ⟨all _ mem_cons_self, all _ (mem_cons_of_mem _ mem_cons_self),
    all _ (mem_cons_of_mem _ (mem_cons_of_mem _ mem_cons_self))⟩

theorem shorter (splits : Splits data obj next) : next.size.toNat < data.size.toNat := by
  have sizes := splits.sizes
  have header := splits.header
  omega

end Splits

variable {memory : Memory}

theorem within_decodeByte {ptr : Nat} {outer : Area} :
    (decodeByte memory ptr).Within outer ↔ (⟨ptr, 1⟩ : Area).Inside outer :=
  forall_mem_singleton

theorem within_decodeTwoByte {ptr : Nat} {outer : Area} : (decodeTwoByte memory ptr).Within outer ↔
      (⟨ptr, 1⟩ : Area).Inside outer ∧ (⟨ptr + 1, 1⟩ : Area).Inside outer :=
  forall_mem_cons.trans (and_congr_right fun _ => forall_mem_singleton)

variable {data : HksBlob}

theorem lengthFrom_inside (first : BitVec 32) (long : 3 ≤ data.size.toNat) :
    (lengthFrom memory data first).Within data.area ∧
      ∀ buf length, (lengthFrom memory data first).result = .ok (buf, length) →
        data.data + 2 ≤ buf ∧ buf ≤ data.data + 4 ∧ buf ≤ data.data + data.size.toNat := by
  have one : ∀ place < data.size.toNat, (⟨data.data + place, 1⟩ : Area).Inside data.area := by
    intro place inside
    exact ⟨Nat.le_add_right _ _, by simp only [Area.end_, HksBlob.area]; omega⟩
  unfold lengthFrom
  split_ifs with short one_ two few
  · refine ⟨Reading.within_pure, fun buf length same => ?_⟩
    obtain ⟨rfl, rfl⟩ := Prod.mk.inj (Reading.result_pure.mp same)
    omega
  · refine ⟨Reading.within_bind.mpr ⟨within_decodeByte.mpr (one 2 (by omega)),
      fun _ _ => Reading.within_pure⟩, fun buf length same => ?_⟩
    obtain ⟨rfl, rfl⟩ := Prod.mk.inj (Reading.result_pure.mp same)
    omega
  · exact ⟨Reading.within_fail, fun _ _ no => by cases no⟩
  · have enough : 4 ≤ data.size.toNat := Nat.le_of_not_lt few
    refine ⟨Reading.within_bind.mpr ⟨within_decodeTwoByte.mpr
      ⟨one 2 (by omega), one 3 (by omega)⟩, fun _ _ => Reading.within_pure⟩,
      fun buf length same => ?_⟩
    obtain ⟨rfl, rfl⟩ := Prod.mk.inj (Reading.result_pure.mp same)
    omega
  · exact ⟨Reading.within_fail, fun _ _ no => by cases no⟩

theorem asn1GetObj_inside (long : 3 ≤ data.size.toNat) : (asn1GetObj memory data).Within data.area ∧
      ∀ next obj, (asn1GetObj memory data).result = .ok (next, obj) → Splits data obj next := by
  have one : ∀ place < 2, (⟨data.data + place, 1⟩ : Area).Inside data.area := by
    intro place inside
    exact ⟨Nat.le_add_right _ _, by simp only [Area.end_, HksBlob.area]; omega⟩
  constructor
  · refine Reading.within_bind.mpr ⟨within_decodeByte.mpr (one 0 (by decide)), fun type _ => ?_⟩
    refine Reading.within_bind.mpr ⟨within_decodeByte.mpr (one 1 (by decide)), fun first _ => ?_⟩
    refine Reading.within_bind.mpr ⟨(lengthFrom_inside first long).1, fun ⟨buf, length⟩ _ => ?_⟩
    dsimp only
    split_ifs
    · exact Reading.within_fail
    · exact Reading.within_pure
  · intro next obj same
    obtain ⟨type, -, same⟩ := Reading.result_bind.mp same
    obtain ⟨first, -, same⟩ := Reading.result_bind.mp same
    obtain ⟨⟨buf, length⟩, read, same⟩ := Reading.result_bind.mp same
    obtain ⟨lower, upper, inside⟩ := (lengthFrom_inside first long).2 buf length read
    obtain ⟨size, rfl⟩ := Nat.exists_eq_add_of_le (Nat.le_of_add_right_le lower)
    dsimp only at same
    rw [Nat.add_sub_cancel_left] at same
    have small : size < 2 ^ 32 := by omega
    have number : (BitVec.ofNat 32 size).toNat = size := Nat.mod_eq_of_lt small
    have rest : (data.size - BitVec.ofNat 32 size).toNat = data.size.toNat - size := by
      rw [BitVec.toNat_sub_of_le (BitVec.le_def.mpr (by omega)), number]
    split_ifs at same with past
    · cases same
    · obtain ⟨rfl, rfl⟩ := Prod.mk.inj (Reading.result_pure.mp same)
      have fits : length.toNat ≤ data.size.toNat - size := by
        rw [← rest]
        exact Nat.le_of_not_lt past
      have left : (data.size - BitVec.ofNat 32 size - length).toNat =
          data.size.toNat - size - length.toNat := by
        rw [BitVec.toNat_sub_of_le (BitVec.le_def.mpr (by omega)), rest]
      refine ⟨⟨rfl, ?_, ?_, trivial⟩, ?_, ?_⟩
      · simp only [Area.end_, HksAsn1Blob.area, number]
      · simp only [Area.end_, HksAsn1Blob.area, HksBlob.area, number]
      · simp only [number, left]
        omega
      · simp only [number]
        omega

theorem hksAsn1ExtractTag_inside (memory : Memory) (data : HksBlob) (expectedTag : BitVec 32) :
    (hksAsn1ExtractTag memory data expectedTag).Within data.area ∧
      ∀ next obj, (hksAsn1ExtractTag memory data expectedTag).result = .ok (next, obj) →
        Splits data obj next := by
  unfold hksAsn1ExtractTag
  split_ifs with few
  · exact ⟨Reading.within_fail, fun _ _ no => by cases no⟩
  · obtain ⟨within, splits⟩ := @asn1GetObj_inside memory data (Nat.le_of_not_lt few)
    refine ⟨Reading.within_bind.mpr ⟨within, fun ⟨next, obj⟩ _ => ?_⟩, fun next obj same => ?_⟩
    · dsimp only
      split_ifs
      · exact Reading.within_fail
      · exact Reading.within_pure
    · obtain ⟨⟨next', obj'⟩, found, same⟩ := Reading.result_bind.mp same
      dsimp only at same
      split_ifs at same
      · cases same
      · obtain ⟨rfl, rfl⟩ := Prod.mk.inj (Reading.result_pure.mp same)
        exact splits _ _ found

/-- One extraction, of any tag and from any memory, leaves the second blob of the first. -/
def Extracts (next data : HksBlob) : Prop :=
  ∃ memory expectedTag obj,
    (hksAsn1ExtractTag memory data expectedTag).result = .ok (next, obj)

theorem wellFounded_extracts : WellFounded Extracts := by
  refine Subrelation.wf ?_ (measure fun blob : HksBlob => blob.size.toNat).wf
  rintro next data ⟨memory, expectedTag, obj, found⟩
  exact ((hksAsn1ExtractTag_inside memory data expectedTag).2 next obj found).shorter

/-- Extraction reads only the bytes it is given. When it succeeds, the header, the value and the
rest follow one another in them and their sizes add up to the input size; and so no loop extracts
for ever, whatever it asks for. -/
theorem hksAsn1ExtractTag_contained :
    (∀ (memory : Memory) (data : HksBlob) (expectedTag : BitVec 32),
      (hksAsn1ExtractTag memory data expectedTag).Within data.area ∧
        ∀ next obj, (hksAsn1ExtractTag memory data expectedTag).result = .ok (next, obj) →
          Splits data obj next ∧ obj.value.area.Inside data.area ∧ next.area.Inside data.area) ∧
      WellFounded Extracts := by
  refine ⟨fun memory data expectedTag => ?_, wellFounded_extracts⟩
  obtain ⟨within, splits⟩ := hksAsn1ExtractTag_inside memory data expectedTag
  refine ⟨within, fun next obj found => ?_⟩
  obtain ⟨-, value, rest⟩ := (splits next obj found).inside
  exact ⟨splits next obj found, value, rest⟩

/-! ### Writing -/

def memMaxLen : Nat := 0x7fffffff

/-- `memmove_s`, which reads its source before it writes. -/
def memmoveS (memory : Memory) (dest destMax src count : Nat) : Option Memory :=
  if destMax = 0 ∨ memMaxLen < destMax ∨ dest = 0 ∨ src = 0 ∨ destMax < count then none
  else some (Area.store memory dest (Area.bytes memory ⟨src, count⟩))

def isOverlap (dest src count : Nat) : Bool :=
  (src < dest && dest < src + count) || (dest < src && src < dest + count)

/-- `memcpy_s`, which refuses a source that overlaps its destination. -/
def memcpyS (memory : Memory) (dest destMax src count : Nat) : Option Memory :=
  if destMax = 0 ∨ memMaxLen < destMax ∨ dest = 0 ∨ src = 0 ∨ destMax < count ∨
      isOverlap dest src count then none
  else some (Area.store memory dest (Area.bytes memory ⟨src, count⟩))

def encodeByte (value : BitVec 32) : Bytes := [value.setWidth 8]

def encodeTwoByte (value : BitVec 32) : Bytes := [(value >>> 8).setWidth 8, value.setWidth 8]

/-- Whether `BuildTlvHeader` puts a zero byte before the value. -/
def padded (memory : Memory) (tlv : HksAsn1Blob) : Bool :=
  tlv.type == tagTypeBitStr || (tlv.type == tagTypeInt && decide (0x7F < memory tlv.data))

/-- The bytes of a length in `BuildTlvHeader`. -/
def lengthBytes (len : BitVec 32) : Bytes :=
  if len < 0x80 then encodeByte len
  else if len < 0x100 then encodeByte 0x81 ++ encodeByte len
  else encodeByte 0x82 ++ encodeTwoByte len

def buildTlvHeader (memory : Memory) (tlv : HksAsn1Blob) : Bytes :=
  let pad := padded memory tlv
  let len := if pad then tlv.size + 1 else tlv.size
  encodeByte tlv.type ++ lengthBytes len ++ if pad then encodeByte 0 else []

/-- The loop of `Asn1InsertValue` that passes leading zeros: what is left of the size, and where. -/
def skipZeros (memory : Memory) : Nat → Nat → Nat × Nat
  | 0, data => (0, data)
  | 1, data => (1, data)
  | size + 2, data =>
    if memory data = 0 then skipZeros memory (size + 1) (data + 1) else (size + 2, data)

/-- The value that `Asn1InsertValue` writes. -/
def strippedValue (memory : Memory) (tlv : HksAsn1Blob) : HksAsn1Blob :=
  if tlv.type ≠ tagTypeOctStr ∧ tlv.type ≠ tagTypeBitStr then
    let (size, data) := skipZeros memory tlv.size.toNat tlv.data
    ⟨tlv.type, .ofNat 32 size, data⟩
  else tlv

/-- `memcpy_s` from a buffer on the stack, whose result the caller drops. -/
def copyHeader (memory : Memory) (buf : HksBlob) (header : Bytes) : Memory :=
  if memMaxLen < buf.size.toNat then memory else Area.store memory buf.data header

/-- The descriptor that `Asn1InsertValue` fills in, with the buffer as it is then. -/
def insertedObj (buf : HksBlob) (headerSize : BitVec 32) (tlv value : HksAsn1Blob) : HksAsn1Obj :=
  ⟨⟨tlv.type, headerSize, buf.data⟩, ⟨tlv.type, value.size, buf.data + headerSize.toNat⟩⟩

def asn1InsertValue (memory : Memory) (buf : HksBlob) (obj : Option HksAsn1Obj)
    (tlv : HksAsn1Blob) : Except Failure (Memory × HksBlob × Option HksAsn1Obj) :=
  let value := strippedValue memory tlv
  let header := buildTlvHeader memory value
  let headerSize := BitVec.ofNat 32 header.length
  let outSize := headerSize + value.size
  if buf.size < outSize then .error .bufferTooSmall
  else
    match memmoveS memory (buf.data + headerSize.toNat) (buf.size - headerSize).toNat value.data
        value.size.toNat with
    | none => .error .bufferTooSmall
    | some moved =>
      let after : HksBlob := ⟨buf.size - outSize, buf.data + outSize.toNat⟩
      .ok (copyHeader moved buf header, after,
        obj.map fun _ => insertedObj after headerSize tlv value)

/-- `HksAsn1InsertValue`. The descriptor is an option since its pointer may be null. -/
def hksAsn1InsertValue (memory : Memory) (buf : HksBlob) (obj : Option HksAsn1Obj)
    (tlv : HksAsn1Blob) : Except Failure (Memory × HksBlob × Option HksAsn1Obj) :=
  if buf.data = 0 ∨ buf.size = 0 ∨ tlv.data = 0 ∨ tlv.size = 0 ∨ maxSize < tlv.size then
    .error .invalidArgument
  else if tlv.type = tagTypeRaw then
    match memcpyS memory buf.data buf.size.toNat tlv.data tlv.size.toNat with
    | none => .error .bufferTooSmall
    | some copied => .ok (copied, ⟨buf.size - tlv.size, buf.data + tlv.size.toNat⟩, obj)
  else asn1InsertValue memory buf obj tlv

/-- `HksAsn1WriteFinal`: the memory, and the size that is left in the buffer. -/
def hksAsn1WriteFinal (memory : Memory) (final : HksBlob) (tlv : HksAsn1Blob) :
    Except Failure (Memory × HksBlob) :=
  if final.data = 0 ∨ final.size = 0 then .error .invalidArgument
  else do
    let (written, tmp, _) ← hksAsn1InsertValue memory final none tlv
    .ok (written, ⟨final.size - tmp.size, final.data⟩)

/-! ### Runs -/

/-- An insertion that was made: the tag, the bytes that the value had then, and the descriptor. -/
structure Inserted where
  type : BitVec 32
  value : Bytes
  obj : Option HksAsn1Obj
  deriving DecidableEq

/-- Values are inserted one after another, each with a descriptor to fill in. -/
def insertAll (memory : Memory) (buf : HksBlob) : List (HksAsn1Obj × HksAsn1Blob) →
    Except Failure (Memory × HksBlob × List Inserted)
  | [] => .ok (memory, buf, [])
  | (old, tlv) :: rest => do
    let (written, after, obj) ← hksAsn1InsertValue memory buf (some old) tlv
    let (last, final, records) ← insertAll written after rest
    .ok (last, final, ⟨tlv.type, tlv.area.bytes memory, obj⟩ :: records)

/-- Tags are extracted one after another, each from what the one before it left. -/
def extractAll (memory : Memory) (data : HksBlob) : List (BitVec 32) →
    Reading Failure (List HksAsn1Obj × HksBlob)
  | [] => pure ([], data)
  | tag :: tags => do
    let (next, obj) ← hksAsn1ExtractTag memory data tag
    let (objs, rest) ← extractAll memory next tags
    pure (obj :: objs, rest)

def unsigned (bytes : Bytes) : Nat := bytes.foldl (fun number byte => number * 256 + byte.toNat) 0

/-- What is extracted is what was inserted, up to the padding byte of integers and bit strings. -/
def SameValue (type : BitVec 32) (value extracted : Bytes) : Prop :=
  if type = tagTypeInt then unsigned extracted = unsigned value
  else if type = tagTypeBitStr then extracted = 0 :: value
  else extracted = value

/-- The tags are extracted in their order with the values inserted, and what remains is what the
insertions left. -/
def ReadBack (last : Memory) (data final : HksBlob) (records : List Inserted) : Prop :=
  ∃ objs, (extractAll last data (records.map Inserted.type)).result = .ok (objs, final) ∧
    List.Forall₂ (fun record obj => SameValue record.type record.value (obj.value.area.bytes last))
      records objs

/-- The values are read back, and each extraction reports the descriptor of the insertion. -/
def RoundTrip (last : Memory) (data final : HksBlob) (records : List Inserted) : Prop :=
  ∃ objs, (extractAll last data (records.map Inserted.type)).result = .ok (objs, final) ∧
    List.Forall₂ (fun record obj =>
      SameValue record.type record.value (obj.value.area.bytes last) ∧ record.obj = some obj)
      records objs

/-- The tag is a byte, and no zero that stands before the value is taken away from it unless the
value is an integer. -/
def Inserted.Extractable (record : Inserted) : Prop :=
  record.type < 0x100 ∧
    (record.type = tagTypeInt ∨ record.type = tagTypeBitStr ∨ record.type = tagTypeOctStr ∨
      record.value.length = 1 ∨ record.value.head? ≠ some 0)

/-! ### What is written -/

/-- The value behind the length: the padding byte, and what is left without leading zeros. -/
def derValue (memory : Memory) (tlv : HksAsn1Blob) : Bytes :=
  let value := strippedValue memory tlv
  (if padded memory value then encodeByte 0 else []) ++ value.area.bytes memory

/-- The length of the value as it is written. -/
def derLength (memory : Memory) (tlv : HksAsn1Blob) : BitVec 32 :=
  let value := strippedValue memory tlv
  if padded memory value then value.size + 1 else value.size

/-- The zeros that are passed stand before a value that is not empty. -/
theorem skipZeros_spec (memory : Memory) (size data : Nat) (some_ : 0 < size) :
    ∃ count, size = count + (skipZeros memory size data).1 ∧
      (skipZeros memory size data).2 = data + count ∧ 0 < (skipZeros memory size data).1 ∧
      Area.bytes memory ⟨data, count⟩ = List.replicate count 0 ∧
      ((skipZeros memory size data).1 = 1 ∨ memory (data + count) ≠ 0) := by
  induction size, data using skipZeros.induct memory with
  | case1 => exact absurd some_ (Nat.lt_irrefl _)
  | case2 data => exact ⟨0, rfl, rfl, Nat.one_pos, rfl, .inl rfl⟩
  | case3 size data zero hypothesis =>
    obtain ⟨count, sizes, place, more, zeros, stop⟩ := hypothesis (Nat.succ_pos _)
    rw [skipZeros, if_pos zero]
    refine ⟨count + 1, by omega, by omega, more, ?_, ?_⟩
    · have first : Area.bytes memory ⟨data, 1⟩ = [0] := congrArg (fun byte => [byte]) zero
      rw [Nat.add_comm, Area.bytes_add, first, zeros, Nat.add_comm]
      rfl
    · rwa [Nat.add_comm count, ← Nat.add_assoc]
  | case4 size data other =>
    rw [skipZeros, if_neg other]
    exact ⟨0, (Nat.zero_add _).symm, rfl, Nat.succ_pos _, rfl, .inr other⟩

/-- The value that is written is what was inserted without some of its leading zeros. -/
theorem strippedValue_spec (memory : Memory) (tlv : HksAsn1Blob) (some_ : 0 < tlv.size.toNat) :
    ∃ count, tlv.area.bytes memory =
        List.replicate count 0 ++ (strippedValue memory tlv).area.bytes memory ∧
      0 < (strippedValue memory tlv).size.toNat ∧
      (strippedValue memory tlv).size.toNat ≤ tlv.size.toNat ∧
      (strippedValue memory tlv).type = tlv.type ∧
      (strippedValue memory tlv).data = tlv.data + count ∧
      (tlv.type = tagTypeOctStr ∨ tlv.type = tagTypeBitStr → count = 0) ∧
      (tlv.type ≠ tagTypeOctStr → tlv.type ≠ tagTypeBitStr →
        (strippedValue memory tlv).size.toNat = 1 ∨
          memory (strippedValue memory tlv).data ≠ 0) := by
  obtain ⟨count, sizes, place, more, zeros, stop⟩ :=
    skipZeros_spec memory tlv.size.toNat tlv.data some_
  unfold strippedValue
  split_ifs with strips
  · have number : (BitVec.ofNat 32 (skipZeros memory tlv.size.toNat tlv.data).1).toNat =
        (skipZeros memory tlv.size.toNat tlv.data).1 := Nat.mod_eq_of_lt (by omega)
    refine ⟨count, ?_, ?_, ?_, rfl, place, ?_, ?_⟩
    · have whole := Area.bytes_add memory tlv.data count
        (skipZeros memory tlv.size.toNat tlv.data).1
      rw [← sizes, zeros, ← place] at whole
      simp only [HksAsn1Blob.area, number]
      exact whole
    · simpa only [number] using more
    · simp only [number]
      omega
    · rintro (oct | bit)
      · exact absurd oct strips.1
      · exact absurd bit strips.2
    · intro _ _
      simp only [number]
      rw [place]
      exact stop
  · refine ⟨0, rfl, some_, le_rfl, rfl, rfl, fun _ => rfl, fun notOct notBit => ?_⟩
    exact absurd ⟨notOct, notBit⟩ strips

theorem length_lengthBytes (len : BitVec 32) :
    1 ≤ (lengthBytes len).length ∧ (lengthBytes len).length ≤ 3 := by
  unfold lengthBytes
  split_ifs
  · exact ⟨Nat.le_refl 1, Nat.le_of_ble_eq_true rfl⟩
  · exact ⟨Nat.le_of_ble_eq_true rfl, Nat.le_of_ble_eq_true rfl⟩
  · exact ⟨Nat.le_of_ble_eq_true rfl, Nat.le_refl 3⟩

theorem written_eq (memory : Memory) (tlv : HksAsn1Blob) (some_ : 0 < tlv.size.toNat) :
    buildTlvHeader memory (strippedValue memory tlv) ++
        (strippedValue memory tlv).area.bytes memory =
      (tlv.type.setWidth 8 :: lengthBytes (derLength memory tlv)) ++ derValue memory tlv := by
  obtain ⟨-, -, -, -, type, -⟩ := strippedValue_spec memory tlv some_
  rw [buildTlvHeader, type, append_assoc]
  rfl

theorem length_derValue (memory : Memory) (tlv : HksAsn1Blob) (some_ : 0 < tlv.size.toNat)
    (small : tlv.size ≤ maxSize) : (derValue memory tlv).length = (derLength memory tlv).toNat ∧
      0 < (derLength memory tlv).toNat ∧ (derLength memory tlv).toNat ≤ maxSize.toNat + 1 := by
  obtain ⟨-, -, more, fewer, -⟩ := strippedValue_spec memory tlv some_
  have most : (strippedValue memory tlv).size.toNat ≤ maxSize.toNat := fewer.trans small
  have number : maxSize.toNat = 65280 := rfl
  simp only [derValue, derLength]
  split_ifs with pad
  · have more : ((strippedValue memory tlv).size + 1).toNat =
        (strippedValue memory tlv).size.toNat + 1 := by
      refine Nat.mod_eq_of_lt ?_
      have one : (1 : BitVec 32).toNat = 1 := rfl
      omega
    rw [length_append, Area.length_bytes]
    simp only [encodeByte, length_singleton, HksAsn1Blob.area]
    omega
  · rw [nil_append, Area.length_bytes]
    exact ⟨rfl, more, by omega⟩

/-- What an insertion leaves: the cursor behind what was written, and the rest of the memory as it
was. -/
structure Wrote (memory : Memory) (buf : HksBlob) (written : Memory) (after : HksBlob)
    (size : Nat) : Prop where
  some_ : 0 < size
  room : size ≤ buf.size.toNat
  data : after.data = buf.data + size
  left : after.size.toNat = buf.size.toNat - size
  outside : ∀ address, address < buf.data ∨ buf.data + size ≤ address →
    written address = memory address

/-- What was written is a tag, a length and a value, and the descriptor is about the place behind
them. -/
structure Encoded (memory : Memory) (buf : HksBlob) (tlv : HksAsn1Blob) (written : Memory)
    (after : HksBlob) (obj : Option HksAsn1Obj) (size : Nat) : Prop where
  size_eq : size = 1 + (lengthBytes (derLength memory tlv)).length +
    (derLength memory tlv).toNat
  obj_eq : ∃ headerSize value, obj = some (insertedObj after headerSize tlv value)
  bytes_eq : buf.size.toNat ≤ memMaxLen → Area.bytes written ⟨buf.data, size⟩ =
    (tlv.type.setWidth 8 :: lengthBytes (derLength memory tlv)) ++ derValue memory tlv

theorem bytes_store_store (memory : Memory) (addr : Nat) (first second : Bytes) :
    Area.bytes (Area.store (Area.store memory (addr + first.length) second) addr first)
      ⟨addr, first.length + second.length⟩ = first ++ second := by
  rw [Area.bytes_add, Area.bytes_store]
  have same : Area.bytes (Area.store (Area.store memory (addr + first.length) second) addr first)
      ⟨addr + first.length, second.length⟩ =
      Area.bytes (Area.store memory (addr + first.length) second)
        ⟨addr + first.length, second.length⟩ :=
    Area.bytes_congr fun address above _ => Area.store_outside (.inr above)
  rw [same, Area.bytes_store]

variable {count : Nat}

theorem memmoveS_eq {moved : Memory} {dest destMax src : Nat}
    (done : memmoveS memory dest destMax src count = some moved) :
    moved = Area.store memory dest (Area.bytes memory ⟨src, count⟩) := by
  unfold memmoveS at done
  split_ifs at done
  exact (Option.some.inj done).symm

variable {written : Memory} {buf after : HksBlob} {old : HksAsn1Obj} {obj : Option HksAsn1Obj}
  {tlv : HksAsn1Blob}

theorem wrote_asn1InsertValue (some_ : 0 < tlv.size.toNat) (small : tlv.size ≤ maxSize)
    (done : asn1InsertValue memory buf (some old) tlv = .ok (written, after, obj)) :
    ∃ size, Wrote memory buf written after size ∧
      Encoded memory buf tlv written after obj size := by
  have eq := written_eq memory tlv some_
  obtain ⟨lengths, least, most⟩ := length_derValue memory tlv some_ small
  obtain ⟨-, short⟩ := length_lengthBytes (derLength memory tlv)
  generalize head : buildTlvHeader memory (strippedValue memory tlv) = header at eq
  have sizes := congrArg List.length eq
  rw [length_append, length_append, Area.length_bytes, length_cons, HksAsn1Blob.area]
    at sizes
  have bound : maxSize.toNat = 65280 := rfl
  simp only at sizes
  have headerSize : (BitVec.ofNat 32 header.length).toNat = header.length :=
    Nat.mod_eq_of_lt (by omega)
  have outSize : (BitVec.ofNat 32 header.length + (strippedValue memory tlv).size).toNat =
      header.length + (strippedValue memory tlv).size.toNat := by
    rw [BitVec.toNat_add, headerSize]
    exact Nat.mod_eq_of_lt (by omega)
  simp only [asn1InsertValue, head] at done
  split_ifs at done with few
  have room : header.length + (strippedValue memory tlv).size.toNat ≤ buf.size.toNat := by
    rw [← outSize]
    exact Nat.le_of_not_lt few
  split at done
  · cases done
  rename_i moved move
  obtain ⟨rfl, rfl, rfl⟩ := done
  have moved_eq := memmoveS_eq move
  rw [headerSize] at moved_eq
  set value := Area.bytes memory (strippedValue memory tlv).area with value_eq
  have length : value.length = (strippedValue memory tlv).size.toNat := Area.length_bytes _ _
  have moved_eq : moved = Area.store memory (buf.data + header.length) value := moved_eq
  refine ⟨header.length + value.length, ⟨by omega, by omega, ?_, ?_, ?_⟩, ⟨?_, ⟨_, _, rfl⟩, ?_⟩⟩
  · simp only [outSize, length]
  · rw [BitVec.toNat_sub_of_le (Nat.le_of_not_lt few), outSize, length]
  · intro address outside
    unfold copyHeader
    split_ifs
    · rw [moved_eq]
      exact Area.store_outside (by omega)
    · rw [Area.store_outside (by omega), moved_eq]
      exact Area.store_outside (by omega)
  · omega
  · intro fits
    rw [copyHeader, if_neg (Nat.not_lt.mpr fits), moved_eq, bytes_store_store, eq]

theorem memcpyS_eq {copied : Memory} {dest destMax src : Nat}
    (done : memcpyS memory dest destMax src count = some copied) :
    count ≤ destMax ∧ copied = Area.store memory dest (Area.bytes memory ⟨src, count⟩) := by
  unfold memcpyS at done
  split_ifs at done with refused
  exact ⟨by omega, (Option.some.inj done).symm⟩

theorem wrote_hksAsn1InsertValue
    (done : hksAsn1InsertValue memory buf (some old) tlv = .ok (written, after, obj)) :
    ∃ size, Wrote memory buf written after size ∧ 0 < tlv.size.toNat ∧ tlv.size ≤ maxSize ∧
      (tlv.type ≠ tagTypeRaw → Encoded memory buf tlv written after obj size) := by
  unfold hksAsn1InsertValue at done
  split_ifs at done with refused raw
  · have some_ : 0 < tlv.size.toNat := by
      refine Nat.pos_of_ne_zero fun zero => refused ?_
      exact .inr (.inr (.inr (.inl (BitVec.eq_of_toNat_eq zero))))
    have small : tlv.size ≤ maxSize :=
      Nat.le_of_not_lt fun past => refused (.inr (.inr (.inr (.inr past))))
    split at done
    · cases done
    rename_i copied copy
    obtain ⟨rfl, rfl, rfl⟩ := done
    obtain ⟨room, copied_eq⟩ := memcpyS_eq copy
    refine ⟨tlv.size.toNat, ⟨some_, room, rfl, ?_, fun address outside => ?_⟩, some_, small,
      fun no => absurd raw no⟩
    · rw [BitVec.toNat_sub_of_le (BitVec.le_def.mpr room)]
    · rw [copied_eq]
      exact Area.store_outside (by rwa [Area.length_bytes])
  · have some_ : 0 < tlv.size.toNat := by
      refine Nat.pos_of_ne_zero fun zero => refused ?_
      exact .inr (.inr (.inr (.inl (BitVec.eq_of_toNat_eq zero))))
    have small : tlv.size ≤ maxSize :=
      Nat.le_of_not_lt fun past => refused (.inr (.inr (.inr (.inr past))))
    obtain ⟨size, wrote, encoded⟩ := wrote_asn1InsertValue some_ small done
    exact ⟨size, wrote, some_, small, fun _ => encoded⟩

variable {last : Memory} {final : HksBlob} {calls : List (HksAsn1Obj × HksAsn1Blob)}
  {records : List Inserted}

theorem insertAll_cons
    (done : insertAll memory buf ((old, tlv) :: calls) = .ok (last, final, records)) :
    ∃ written after obj rest,
      hksAsn1InsertValue memory buf (some old) tlv = .ok (written, after, obj) ∧
      insertAll written after calls = .ok (last, final, rest) ∧
      records = ⟨tlv.type, tlv.area.bytes memory, obj⟩ :: rest := by
  rw [insertAll] at done
  cases first : hksAsn1InsertValue memory buf (some old) tlv with
  | error failure =>
    rw [first] at done
    cases done
  | ok inserted =>
    obtain ⟨written, after, obj⟩ := inserted
    rw [first] at done
    cases more : insertAll written after calls with
    | error failure =>
      simp only [bind, Except.bind, more] at done
      cases done
    | ok others =>
      obtain ⟨last', final', rest⟩ := others
      simp only [bind, Except.bind, more] at done
      obtain ⟨rfl, rfl, rfl⟩ := done
      exact ⟨written, after, obj, rest, rfl, more, rfl⟩

theorem insertAll_before (done : insertAll memory buf calls = .ok (last, final, records)) :
    ∀ address < buf.data, last address = memory address := by
  induction calls generalizing memory buf records with
  | nil =>
    obtain ⟨rfl, rfl, rfl⟩ := done
    exact fun _ _ => rfl
  | cons call calls hypothesis =>
    obtain ⟨written, after, obj, rest, first, more, rfl⟩ := insertAll_cons done
    obtain ⟨size, wrote, -⟩ := wrote_hksAsn1InsertValue first
    intro address before
    have cursor := wrote.data
    rw [hypothesis more address (by omega), wrote.outside address (.inl before)]

/-! ### What is read back -/

theorem byte_of_bytes {addr size place : Nat} {bytes : Bytes}
    (same : Area.bytes memory ⟨addr, size⟩ = bytes) (inside : place < size) :
    memory (addr + place) = bytes.getD place 0 := by
  have long : place < bytes.length := by rwa [← same, Area.length_bytes]
  rw [getD_eq_getElem _ _ long]
  simp only [← same, Area.bytes, getElem_map, getElem_range]

theorem two_bytes (len : BitVec 32) (small : len.toNat < 2 ^ 16) :
    ((len >>> 8).setWidth 8).setWidth 32 <<< 8 ||| (len.setWidth 8).setWidth 32 = len := by
  refine BitVec.eq_of_toNat_eq ?_
  have high : (((len >>> 8).setWidth 8).setWidth 32).toNat = len.toNat / 2 ^ 8 := by
    rw [BitVec.toNat_setWidth, BitVec.toNat_setWidth, BitVec.toNat_ushiftRight]
    omega
  have low : ((len.setWidth 8).setWidth 32).toNat = len.toNat % 2 ^ 8 := by
    rw [BitVec.toNat_setWidth, BitVec.toNat_setWidth]
    omega
  have shifted : (len.toNat / 2 ^ 8) <<< 8 < 2 ^ 32 := by
    omega
  rw [BitVec.toNat_or, BitVec.toNat_shiftLeft, high, low, Nat.mod_eq_of_lt shifted,
    ← Nat.shiftLeft_add_eq_or_of_lt (Nat.mod_lt _ (Nat.two_pow_pos 8))]
  omega

theorem lengthFrom_encoded {len : BitVec 32}
    (start : Area.bytes memory ⟨data.data + 1, (lengthBytes len).length⟩ = lengthBytes len)
    (small : len.toNat < 2 ^ 16) (room : 1 + (lengthBytes len).length ≤ data.size.toNat) :
    (lengthFrom memory data ((memory (data.data + 1)).setWidth 32)).result =
      .ok (data.data + (1 + (lengthBytes len).length), len) := by
  have narrow : len.toNat < 2 ^ 8 → (len.setWidth 8).setWidth 32 = len := by
    intro fits
    refine BitVec.eq_of_toNat_eq ?_
    rw [BitVec.toNat_setWidth, BitVec.toNat_setWidth]
    omega
  unfold lengthBytes at start room ⊢
  split_ifs at start room ⊢ with short one
  · have low : len.toNat < 0x80 := short
    have first : memory (data.data + 1) = len.setWidth 8 :=
      @byte_of_bytes _ _ _ 0 _ start Nat.one_pos
    have number : (memory (data.data + 1)).setWidth 32 = len := by
      rw [first]
      exact narrow (by omega)
    rw [number, lengthFrom, if_pos short]
    rfl
  · have low : len.toNat < 0x100 := one
    have first : memory (data.data + 1) = 0x81 :=
      @byte_of_bytes _ _ _ 0 _ start (Nat.le_of_ble_eq_true rfl)
    have second : memory (data.data + 2) = len.setWidth 8 :=
      @byte_of_bytes _ _ _ 1 _ start (Nat.le_of_ble_eq_true rfl)
    have number : (memory (data.data + 2)).setWidth 32 = len := by
      rw [second]
      exact narrow low
    rw [first]
    exact congrArg (fun length => Except.ok (data.data + 3, length)) number
  · have first : memory (data.data + 1) = 0x82 :=
      @byte_of_bytes _ _ _ 0 _ start (Nat.le_of_ble_eq_true rfl)
    have second : memory (data.data + 2) = (len >>> 8).setWidth 8 :=
      @byte_of_bytes _ _ _ 1 _ start (Nat.le_of_ble_eq_true rfl)
    have third : memory (data.data + 3) = len.setWidth 8 :=
      @byte_of_bytes _ _ _ 2 _ start (Nat.le_of_ble_eq_true rfl)
    have number : (memory (data.data + 2)).setWidth 32 <<< 8 |||
        (memory (data.data + 2 + 1)).setWidth 32 = len := by
      rw [second, third]
      exact two_bytes len small
    have enough : ¬data.size < minHeaderLen + 1 := Nat.not_lt.mpr room
    have branch : lengthFrom memory data ((memory (data.data + 1)).setWidth 32) = (do
        let length ← decodeTwoByte memory (data.data + 2)
        pure (data.data + 4, length)) := by
      rw [first]
      exact if_neg enough
    rw [branch]
    exact congrArg (fun length => Except.ok (data.data + 4, length)) number

theorem asn1GetObj_encoded {type : BitVec 8} {len : BitVec 32}
    (start : Area.bytes memory ⟨data.data, 1 + (lengthBytes len).length⟩ = type :: lengthBytes len)
    (small : len.toNat < 2 ^ 16)
    (room : 1 + (lengthBytes len).length + len.toNat ≤ data.size.toNat) :
    ∃ next obj, (asn1GetObj memory data).result = .ok (next, obj) ∧
      obj.header.type = type.setWidth 32 ∧ obj.header.data = data.data ∧
      obj.value.area = ⟨data.data + (1 + (lengthBytes len).length), len.toNat⟩ ∧
      next.data = data.data + (1 + (lengthBytes len).length + len.toNat) ∧
      next.size.toNat = data.size.toNat - (1 + (lengthBytes len).length + len.toNat) := by
  have first : memory data.data = type := @byte_of_bytes _ _ _ 0 _ start (by omega)
  have length : Area.bytes memory ⟨data.data + 1, (lengthBytes len).length⟩ = lengthBytes len := by
    rw [Area.bytes_add] at start
    exact (@List.append_inj _ (Area.bytes memory ⟨data.data, 1⟩) [type] _ _ start rfl).2
  have read := lengthFrom_encoded length small (by omega)
  have headerSize : (BitVec.ofNat 32 (1 + (lengthBytes len).length)).toNat =
      1 + (lengthBytes len).length := Nat.mod_eq_of_lt (by omega)
  have rest : (data.size - BitVec.ofNat 32 (1 + (lengthBytes len).length)).toNat =
      data.size.toNat - (1 + (lengthBytes len).length) := by
    rw [BitVec.toNat_sub_of_le (BitVec.le_def.mpr (by omega)), headerSize]
  have fits : ¬len > data.size - BitVec.ofNat 32 (1 + (lengthBytes len).length) :=
    Nat.not_lt.mpr (by omega)
  have found : (asn1GetObj memory data).result = .ok
      (⟨data.size - BitVec.ofNat 32 (1 + (lengthBytes len).length) - len,
        data.data + (BitVec.ofNat 32 (1 + (lengthBytes len).length)).toNat + len.toNat⟩,
      ⟨⟨type.setWidth 32, BitVec.ofNat 32 (1 + (lengthBytes len).length), data.data⟩,
        ⟨type.setWidth 32, len, data.data + (1 + (lengthBytes len).length)⟩⟩) := by
    have tag : (decodeByte memory data.data).result = .ok (type.setWidth 32) := by
      rw [← first]
      rfl
    refine Reading.result_bind.mpr ⟨_, tag, ?_⟩
    refine Reading.result_bind.mpr ⟨_, rfl, Reading.result_bind.mpr ⟨_, read, ?_⟩⟩
    dsimp only
    rw [Nat.add_sub_cancel_left, if_neg fits]
    rfl
  refine ⟨_, _, found, rfl, rfl, rfl, ?_, ?_⟩
  · simp only [headerSize]
    omega
  · rw [BitVec.toNat_sub_of_le (Nat.le_of_not_lt fits), rest]
    omega

theorem type_of_hksAsn1ExtractTag {next : HksBlob} {expectedTag : BitVec 32} {obj : HksAsn1Obj}
    (found : (hksAsn1ExtractTag memory data expectedTag).result = .ok (next, obj)) :
    expectedTag < 0x100 := by
  unfold hksAsn1ExtractTag at found
  split_ifs at found
  · cases found
  · obtain ⟨⟨next', obj'⟩, read, found⟩ := Reading.result_bind.mp found
    dsimp only at found
    split_ifs at found with other
    · cases found
    · obtain ⟨type, tag, read⟩ := Reading.result_bind.mp read
      obtain ⟨first, -, read⟩ := Reading.result_bind.mp read
      obtain ⟨⟨buf, length⟩, -, read⟩ := Reading.result_bind.mp read
      dsimp only at read
      split_ifs at read
      · cases read
      · obtain ⟨rfl, rfl⟩ := Prod.mk.inj (Reading.result_pure.mp read)
        obtain rfl := not_not.mp other
        obtain rfl := Except.ok.inj tag
        refine BitVec.lt_def.mpr ?_
        have bound : (0x100 : BitVec 32).toNat = 256 := rfl
        rw [BitVec.toNat_setWidth]
        omega

theorem hksAsn1ExtractTag_encoded {size : Nat}
    (some_ : 0 < tlv.size.toNat) (small : tlv.size ≤ maxSize)
    (wrote : Wrote memory buf written after size)
    (encoded : Encoded memory buf tlv written after obj size) (limit : buf.size.toNat ≤ memMaxLen)
    (kept : ∀ address < after.data, last address = written address) (byte : tlv.type < 0x100) :
    ∃ found, (hksAsn1ExtractTag last buf tlv.type).result = .ok (after, found) ∧
      found.value.area.bytes last = derValue memory tlv := by
  obtain ⟨lengths, least, most⟩ := length_derValue memory tlv some_ small
  have bound : maxSize.toNat = 65280 := rfl
  have whole : Area.bytes last ⟨buf.data, size⟩ =
      (tlv.type.setWidth 8 :: lengthBytes (derLength memory tlv)) ++ derValue memory tlv := by
    rw [← encoded.bytes_eq limit]
    refine Area.bytes_congr fun address _ inside => kept address ?_
    rw [wrote.data]
    exact inside
  rw [encoded.size_eq, Area.bytes_add] at whole
  obtain ⟨start, value⟩ := append_inj whole
    (by rw [Area.length_bytes, length_cons, Nat.add_comm])
  have room := wrote.room
  rw [encoded.size_eq] at room
  obtain ⟨next, found, read, type, -, area, data, left⟩ := asn1GetObj_encoded start (by omega) room
  have same : next = after := by
    have cursor := wrote.data
    have rest := wrote.left
    rw [encoded.size_eq] at cursor rest
    obtain ⟨nextSize, nextData⟩ := next
    obtain ⟨afterSize, afterData⟩ := after
    simp only at data left cursor rest
    rw [data, cursor, BitVec.eq_of_toNat_eq (left.trans rest.symm)]
  have tag : found.header.type = tlv.type := by
    rw [type]
    refine BitVec.eq_of_toNat_eq ?_
    have low : tlv.type.toNat < 256 := byte
    rw [BitVec.toNat_setWidth, BitVec.toNat_setWidth]
    omega
  refine ⟨found, ?_, by rw [area, ← value]⟩
  have enough : ¬buf.size < minHeaderLen := by
    refine Nat.not_lt.mpr ?_
    obtain ⟨one, -⟩ := length_lengthBytes (derLength memory tlv)
    have three : minHeaderLen.toNat = 3 := rfl
    omega
  rw [hksAsn1ExtractTag, if_neg enough]
  refine Reading.result_bind.mpr ⟨_, read, ?_⟩
  dsimp only
  rw [if_neg (not_not.mpr tag), same]
  rfl

theorem unsigned_cons_zero (bytes : Bytes) : unsigned (0 :: bytes) = unsigned bytes := rfl

theorem unsigned_zeros (count : Nat) (bytes : Bytes) :
    unsigned (List.replicate count 0 ++ bytes) = unsigned bytes := by
  induction count with
  | zero => rfl
  | succ count hypothesis =>
    rw [replicate_succ, cons_append, unsigned_cons_zero, hypothesis]

theorem eq_zeros_append {value : Bytes} : value = List.replicate count 0 ++ value ↔ count = 0 := by
  constructor
  · intro same
    have lengths := congrArg List.length same
    rw [length_append, length_replicate] at lengths
    omega
  · rintro rfl
    rfl

/-- What is written under a tag that is a byte stands for what was inserted exactly when no zeros
were taken away, or the value is a number. -/
theorem sameValue_derValue (memory : Memory) (tlv : HksAsn1Blob) (obj : Option HksAsn1Obj)
    (some_ : 0 < tlv.size.toNat) (byte : tlv.type < 0x100) :
    SameValue tlv.type (tlv.area.bytes memory) (derValue memory tlv) ↔
      Inserted.Extractable ⟨tlv.type, tlv.area.bytes memory, obj⟩ := by
  obtain ⟨count, zeros, more, fewer, type, data, whole, stop⟩ := strippedValue_spec memory tlv some_
  unfold SameValue derValue padded Inserted.Extractable
  simp only [type, byte, true_and]
  by_cases int : tlv.type = tagTypeInt
  · rw [if_pos int]
    refine iff_of_true ?_ (.inl int)
    rw [zeros, unsigned_zeros]
    split_ifs
    · rfl
    · rfl
  · rw [if_neg int]
    by_cases bit : tlv.type = tagTypeBitStr
    · obtain rfl := whole (.inr bit)
      rw [if_pos bit, if_pos (by rw [bit]; rfl)]
      refine iff_of_true ?_ (.inr (.inl bit))
      rw [zeros]
      rfl
    · have unpadded : (tlv.type == tagTypeBitStr || tlv.type == tagTypeInt &&
          decide (0x7F < memory (strippedValue memory tlv).data)) = false := by
        rw [beq_false_of_ne bit, beq_false_of_ne int]
        rfl
      rw [if_neg bit, unpadded, if_neg Bool.false_ne_true, nil_append]
      have same : (strippedValue memory tlv).area.bytes memory = tlv.area.bytes memory ↔
          count = 0 := by
        rw [zeros]
        exact eq_zeros_append
      have long : (tlv.area.bytes memory).length =
          count + (strippedValue memory tlv).size.toNat := by
        rw [zeros, length_append, length_replicate, Area.length_bytes]
        rfl
      rw [same]
      by_cases oct : tlv.type = tagTypeOctStr
      · exact iff_of_true (whole (.inl oct)) (.inr (.inr (.inl oct)))
      simp only [int, bit, oct, false_or]
      constructor
      · rintro rfl
        refine (stop oct bit).imp (fun one => by omega) fun other head => ?_
        have first := @byte_of_bytes memory (strippedValue memory tlv).data
          (strippedValue memory tlv).size.toNat 0 _ rfl more
        refine other ?_
        rw [Nat.add_zero] at first
        rw [first, getD_eq_getElem?_getD, ← List.head?_eq_getElem?]
        rw [zeros, replicate_zero, nil_append] at head
        exact congrArg (fun byte => byte.getD 0) head
      · rintro (one | head)
        · omega
        · cases count with
          | zero => rfl
          | succ count =>
            refine absurd ?_ head
            rw [zeros]
            rfl

/-! ### Round trips -/

/-- The values of insertions are read back exactly when each of them is extractable. -/
theorem readBack_iff (done : insertAll memory buf calls = .ok (last, final, records))
    (limit : buf.size.toNat ≤ memMaxLen) :
    ReadBack last buf final records ↔ ∀ record ∈ records, record.Extractable := by
  induction calls generalizing memory buf records with
  | nil =>
    obtain ⟨rfl, rfl, rfl⟩ := done
    exact iff_of_true ⟨[], rfl, .nil⟩ fun _ no => absurd no not_mem_nil
  | cons call calls hypothesis =>
    obtain ⟨old, tlv⟩ := call
    obtain ⟨written, after, obj, rest, first, more, rfl⟩ := insertAll_cons done
    obtain ⟨size, wrote, some_, small, encodes⟩ := wrote_hksAsn1InsertValue first
    have shorter : after.size.toNat ≤ memMaxLen := by
      rw [wrote.left]
      exact (Nat.sub_le _ _).trans limit
    have others := hypothesis more shorter
    rw [forall_mem_cons, ← others]
    by_cases byte : tlv.type < 0x100
    · have notRaw : tlv.type ≠ tagTypeRaw := by
        rintro raw
        rw [raw] at byte
        exact absurd byte (by decide)
      obtain ⟨found, read, value⟩ := hksAsn1ExtractTag_encoded some_ small wrote (encodes notRaw)
        limit (insertAll_before more) byte
      rw [← sameValue_derValue memory tlv obj some_ byte, ← value]
      constructor
      · rintro ⟨objs, all, same⟩
        obtain ⟨⟨next, obj'⟩, again, all⟩ := Reading.result_bind.mp all
        obtain ⟨rfl, rfl⟩ := Prod.mk.inj (Except.ok.inj (read.symm.trans again))
        obtain ⟨⟨objs', rest'⟩, tail, made⟩ := Reading.result_bind.mp all
        obtain ⟨rfl, rfl⟩ := Prod.mk.inj (Reading.result_pure.mp made)
        obtain ⟨here, later⟩ := forall₂_cons.mp same
        exact ⟨here, objs', tail, later⟩
      · rintro ⟨here, objs, all, later⟩
        refine ⟨found :: objs, ?_, .cons here later⟩
        exact Reading.result_bind.mpr ⟨_, read, Reading.result_bind.mpr ⟨_, all, rfl⟩⟩
    · refine iff_of_false ?_ fun ⟨extractable, _⟩ => byte extractable.1
      rintro ⟨objs, all, -⟩
      obtain ⟨⟨next, obj'⟩, read, -⟩ := Reading.result_bind.mp all
      exact byte (type_of_hksAsn1ExtractTag read)

/-- The descriptor of a first insertion is never the one that extraction reports. -/
theorem readBack_all_iff (done : insertAll memory buf calls = .ok (last, final, records)) :
    RoundTrip last buf final records ↔ records = [] := by
  cases calls with
  | nil =>
    obtain ⟨rfl, rfl, rfl⟩ := done
    exact iff_of_true ⟨[], rfl, .nil⟩ rfl
  | cons call calls =>
    obtain ⟨old, tlv⟩ := call
    obtain ⟨written, after, obj, rest, first, more, rfl⟩ := insertAll_cons done
    obtain ⟨size, wrote, -, -, encodes⟩ := wrote_hksAsn1InsertValue first
    refine iff_of_false ?_ (cons_ne_nil _ _)
    rintro ⟨objs, all, same⟩
    obtain ⟨⟨next, found⟩, read, all⟩ := Reading.result_bind.mp all
    obtain ⟨⟨objs', rest'⟩, -, made⟩ := Reading.result_bind.mp all
    obtain ⟨rfl, rfl⟩ := Prod.mk.inj (Reading.result_pure.mp made)
    obtain ⟨⟨-, equal⟩, -⟩ := forall₂_cons.mp same
    have byte := type_of_hksAsn1ExtractTag read
    have notRaw : tlv.type ≠ tagTypeRaw := by
      rintro raw
      simp only [raw] at byte
      exact absurd byte (by decide)
    obtain ⟨headerSize, value, obj_eq⟩ := (encodes notRaw).obj_eq
    have splits := (hksAsn1ExtractTag_inside last buf tlv.type).2 next found read
    obtain ⟨start, -⟩ := splits.consecutive
    have place : found.header.data = after.data := by
      rw [← Option.some.inj (obj_eq.symm.trans equal)]
      rfl
    have there : found.header.data = buf.data := start
    have cursor := wrote.data
    have behind := wrote.some_
    omega

/-- The values inserted one after another are read back, with their tags and from exactly the bytes
written, when and only when every tag is a byte and no leading zero of a value is lost; and the
descriptors are the ones that extraction reports only when nothing was inserted. -/
theorem insertAll_roundTrip {memory last : Memory} {buf final : HksBlob}
    {calls : List (HksAsn1Obj × HksAsn1Blob)} {records : List Inserted}
    (done : insertAll memory buf calls = .ok (last, final, records)) :
    (RoundTrip last buf final records ↔ records = []) ∧
      (buf.size.toNat ≤ memMaxLen →
        (ReadBack last buf final records ↔ ∀ record ∈ records, record.Extractable)) :=
  ⟨readBack_all_iff done, readBack_iff done⟩

/-- A string that begins with a zero byte, at 50, and a buffer at 100. -/
def sampleMemory : Memory := fun address => if address = 51 then 0x41 else 0

def sampleBuf : HksBlob := ⟨16, 100⟩

def sampleCalls : List (HksAsn1Obj × HksAsn1Blob) :=
  [(⟨⟨0, 0, 0⟩, ⟨0, 0, 0⟩⟩, ⟨0x0C, 2, 50⟩)]

theorem insertAll_roundTrip_sample : ∃ last final records,
    insertAll sampleMemory sampleBuf sampleCalls = .ok (last, final, records) ∧
      (RoundTrip last sampleBuf final records ↔ records = []) ∧
      (sampleBuf.size.toNat ≤ memMaxLen →
        (ReadBack last sampleBuf final records ↔ ∀ record ∈ records, record.Extractable)) :=
  ⟨_, _, _, rfl, @insertAll_roundTrip sampleMemory _ sampleBuf _ sampleCalls _ rfl⟩

/-- The zero byte is lost, and the descriptor is one of the bytes behind the three written. -/
theorem not_insertAll_roundTrip_sample : ∃ last final records,
    insertAll sampleMemory sampleBuf sampleCalls = .ok (last, final, records) ∧
      records.map Inserted.value = [[0, 0x41]] ∧
      records.map Inserted.obj = [some ⟨⟨0x0C, 2, 103⟩, ⟨0x0C, 1, 105⟩⟩] ∧
      ¬ReadBack last sampleBuf final records ∧ ¬RoundTrip last sampleBuf final records := by
  refine ⟨_, _, _, rfl, rfl, rfl, ?_, ?_⟩
  · refine (@readBack_iff sampleMemory sampleBuf _ _ sampleCalls _ rfl
      (by decide)).not.mpr fun all => ?_
    obtain ⟨-, int | bit | oct | one | head⟩ := all _ List.mem_cons_self
    · exact absurd int (by decide)
    · exact absurd bit (by decide)
    · exact absurd oct (by decide)
    · exact absurd one (Nat.succ_ne_self 1)
    · exact head rfl
  · exact (@readBack_all_iff sampleMemory sampleBuf _ _ sampleCalls _ rfl).not.mpr
      (List.cons_ne_nil _ _)

end TowerSafe.Asn1
