/-
This file says where the readers of the raw serialization buffer read when the memory is somebody
else's. A length of the peer is signed and is rounded up as an unsigned size: the last three
negative numbers become 0 and pass. What a call gives lies in what is left to read, and a call that
fails leaves the position, exactly when no buffer has such a length that its bytes are not there,
and no string has a negative one.
-/

import TowerSafe.Hdf.Sbuf
import TowerSafe.Library.Reading

namespace TowerSafe.Sbuf

open Library Option

/-! ### Where is read -/

namespace HdfSBufRaw

variable (target : Target) (sbuf : HdfSBufRaw)

/-- `SbufRawImplRead`: where it copies from, if it succeeds. -/
def readArea (readSize : Nat) : Option Area × HdfSBufRaw :=
  if readSize = 0 then (some ⟨sbuf.readPos, 0⟩, sbuf)
  else
    let alignSize := getAlignSize target readSize
    if sbuf.getLeftReadSize < alignSize then (none, sbuf)
    else (some ⟨sbuf.readPos, readSize⟩, { sbuf with readPos := sbuf.readPos + alignSize })

/-- `SbufRawImplReadBuffer`: the pointer and the size it reports, or NULL, if it succeeds. -/
def readBufferArea : Option (Option Area) × HdfSBufRaw :=
  match sbuf.readInt32 target with
  | (none, sbuf) => (none, sbuf)
  | (some buffSize, sbuf) =>
    if buffSize = 0 then (some none, sbuf)
    else
      let alignSize := getAlignSize target (sizeOfInt32 target buffSize)
      if sbuf.getLeftReadSize < alignSize then
        (none, (sbuf.readRollback target IntType.int32.size).1)
      else (some (some ⟨sbuf.readPos, buffSize.toNat⟩),
        { sbuf with readPos := sbuf.readPos + alignSize })

/-- `SbufRawImplReadString`: the string behind the pointer it returns, with its terminator, or NULL.
-/
def readStringArea : Option Area × HdfSBufRaw :=
  match sbuf.readInt32 target with
  | (none, sbuf) => (none, sbuf)
  | (some strLen, sbuf) =>
    if strLen.toInt ≤ 0 then (none, sbuf)
    else
      let alignSize := getAlignSize target (sizeOfInt32 target strLen)
      if int16Max < strLen.toNat ∨ sbuf.getLeftReadSize < alignSize then
        (none, (sbuf.readRollback target IntType.int32.size).1)
      else
        let data := Bytes.overwrite sbuf.data (sbuf.readPos + strLen.toNat - 1) [0]
        (some ⟨sbuf.readPos, (cString data sbuf.readPos).length + 1⟩,
          { sbuf with data := data, readPos := sbuf.readPos + alignSize })

theorem read_eq (readSize : Nat) : sbuf.read target readSize =
      ((sbuf.readArea target readSize).1.map fun area => sbuf.data.slice area.addr area.size,
        (sbuf.readArea target readSize).2) := by
  unfold read readArea
  dsimp only
  split_ifs with empty few
  · rw [map_some, Bytes.slice_zero]
  · rfl
  · rfl

theorem readBuffer_eq : sbuf.readBuffer target = ((sbuf.readBufferArea target).1.map
          (Option.map fun area => sbuf.data.slice area.addr area.size),
        (sbuf.readBufferArea target).2) := by
  have data : (sbuf.readInt32 target).2.data = sbuf.data := by
    rw [readInt32, readInteger, read_eq, readArea]
    dsimp only
    split_ifs <;> rfl
  unfold readBuffer readBufferArea
  generalize sbuf.readInt32 target = taken at data
  obtain ⟨_ | buffSize, next⟩ := taken
  · rfl
  dsimp only at data ⊢
  split_ifs
  · rfl
  · rfl
  · rw [← data]
    rfl

theorem readString_eq : (sbuf.readString target).2 = (sbuf.readStringArea target).2 ∧
      (sbuf.readString target).1 = (sbuf.readStringArea target).1.map fun area =>
        (sbuf.readStringArea target).2.data.slice area.addr (area.size - 1) := by
  unfold readString readStringArea
  generalize sbuf.readInt32 target = taken
  obtain ⟨_ | strLen, next⟩ := taken
  · exact ⟨rfl, rfl⟩
  dsimp only
  split_ifs
  · exact ⟨rfl, rfl⟩
  · exact ⟨rfl, rfl⟩
  · refine ⟨rfl, ?_⟩
    exact congrArg some (List.prefix_iff_eq_take.mp (List.takeWhile_prefix _))

end HdfSBufRaw

/-! ### What a call gives -/

/-- What a call gives: nothing if it fails, else nothing to read or an area of the data. A string
that was `NULL` was written as a length of 0. -/
def ReadCall.given (target : Target) (sbuf : HdfSBufRaw) : ReadCall → Option (Option Area)
  | .integer type => (sbuf.readArea target type.size).1.map some
  | .buffer => (sbuf.readBufferArea target).1
  | .string =>
    match (sbuf.readStringArea target).1 with
    | some area => some (some area)
    | none => if (sbuf.readInt32 target).1 = some 0 then some none else none

/-- A call that fails leaves the position, and what another one gives lies in what is left. -/
def ReadCall.Contained (target : Target) (sbuf : HdfSBufRaw) (call : ReadCall) : Prop :=
  match call.given target sbuf with
  | none => (call.perform target sbuf).2.readPos = sbuf.readPos
  | some none => True
  | some (some area) => sbuf.readPos ≤ area.addr ∧ area.end_ ≤ sbuf.writePos

/-- The length of the peer, where there is one, is a size: a buffer whose length is one of the last
three negative numbers has all the bytes that its length says as an unsigned number, and a string
has no negative length. -/
def ReadCall.Sized (target : Target) (sbuf : HdfSBufRaw) : ReadCall → Prop
  | .integer _ => True
  | .buffer => ∀ length, (sbuf.readInt32 target).1 = some length → -4 < length.toInt →
      length.toInt < 0 → sbuf.readPos + 4 + length.toNat ≤ sbuf.writePos
  | .string => ∀ length, (sbuf.readInt32 target).1 = some length → 0 ≤ length.toInt

def HdfSBufRaw.setDataSize (sbuf : HdfSBufRaw) (size : Nat) : HdfSBufRaw :=
  if size ≤ sbuf.capacity then { sbuf with readPos := 0, writePos := size } else sbuf

/-- `SbufBindRaw`, of memory; the allocation may fail. -/
def sbufBindRaw (memory : Nat → BitVec 8) (base size : Nat) (granted : Bool) :
    Option HdfSBufRaw :=
  if base = 0 ∨ size = 0 then none
  else if base % 4 ≠ 0 then none
  else if granted = false then none
  else some {
    writePos := size
    readPos := 0
    capacity := size
    data := Area.bytes memory ⟨base, size⟩
    isBind := true }

/-- Memory that is bound, or data of any size that a new buffer received. -/
inductive Received (target : Target) : HdfSBufRaw → Prop where
  | bound {memory : Nat → BitVec 8} {base size : Nat} {granted : Bool} {sbuf : HdfSBufRaw}
      (fits : size < target.sizeModulus)
      (made : sbufBindRaw memory base size granted = some sbuf) : Received target sbuf
  | data {capacity size : Nat} {instanceGranted dataGranted : Bool} {sbuf : HdfSBufRaw}
      {data : Bytes} (made : newInstance capacity instanceGranted dataGranted = some sbuf)
      (same : data.length = capacity) :
      Received target (HdfSBufRaw.setDataSize { sbuf with data := data } size)

/-- The positions are in order, and the data are there. -/
structure HdfSBufRaw.Within (target : Target) (sbuf : HdfSBufRaw) : Prop where
  read : sbuf.readPos ≤ sbuf.writePos
  write : sbuf.writePos ≤ sbuf.data.length
  fits : sbuf.data.length < target.sizeModulus

theorem Received.within {target : Target} {sbuf : HdfSBufRaw} (received : Received target sbuf) :
    sbuf.Within target := by
  cases received with
  | @bound memory base size granted sbuf fits made =>
    unfold sbufBindRaw at made
    split_ifs at made
    obtain rfl := some_inj.mp made
    exact ⟨Nat.zero_le _, by rw [Area.length_bytes], by rw [Area.length_bytes]; exact fits⟩
  | @data capacity size instanceGranted dataGranted sbuf data made same =>
    obtain ⟨sound, start, empty, rfl⟩ := fresh_of_newInstance made
    have modulus := target.uint32Modulus_le
    have fits : data.length < target.sizeModulus := by
      have small := sound.capacity_le
      rw [hdfSbufMaxSize] at small
      rw [uint32Modulus] at modulus
      omega
    unfold HdfSBufRaw.setDataSize
    dsimp only
    split_ifs with inside
    · exact ⟨Nat.zero_le _, by dsimp only; omega, fits⟩
    · refine ⟨sound.readPos_le, ?_, fits⟩
      rw [same]
      exact sound.writePos_le

/-! ### Lengths -/

/-- A negative length as a size: the last three are rounded up to 0, and the others to no less than
they are as unsigned numbers. -/
theorem getAlignSize_negative (target : Target) {length : IntType.int32.Value}
    (negative : length.toInt < 0) :
    (-4 < length.toInt → getAlignSize target (sizeOfInt32 target length) = 0) ∧
      (length.toInt ≤ -4 → length.toNat ≤ getAlignSize target (sizeOfInt32 target length)) := by
  have modulus := target.uint32Modulus_le
  have signed : length.toInt = if 2 * length.toNat < 2 ^ 32 then (length.toNat : Int)
      else (length.toNat : Int) - 2 ^ 32 := BitVec.toInt_eq_toNat_cond length
  have high : 2 ^ 31 ≤ length.toNat := by
    omega
  rw [if_neg (by omega)] at signed
  rw [uint32Modulus] at modulus
  rw [sizeOfInt32, if_neg (by omega), getAlignSize, hdfSbufAlign]
  constructor
  · intro last
    have wrapped : target.sizeModulus - (2 ^ 32 - length.toNat) + 4 - 1 =
        3 - (2 ^ 32 - length.toNat) + target.sizeModulus := by omega
    rw [wrapped, Nat.add_mod_right, Nat.mod_eq_of_lt (by omega)]
    omega
  · intro other
    rw [Nat.mod_eq_of_lt (by omega)]
    omega

theorem getAlignSize_positive (target : Target) {length : IntType.int32.Value}
    (positive : 0 ≤ length.toInt) :
    getAlignSize target (sizeOfInt32 target length) = alignUp length.toNat := by
  have modulus := target.uint32Modulus_le
  have signed : length.toInt = if 2 * length.toNat < 2 ^ 32 then (length.toNat : Int)
      else (length.toNat : Int) - 2 ^ 32 := BitVec.toInt_eq_toNat_cond length
  have low : length.toNat < 2 ^ 31 := by
    have inside : length.toNat < 2 ^ 32 := length.isLt
    omega
  rw [uint32Modulus] at modulus
  rw [sizeOfInt32, if_pos low, getAlignSize_eq (by omega)]

theorem length_cString_le {data : Bytes} {start last : Nat} (inside : last + 1 ≤ data.length)
    (behind : start ≤ last) :
    start + (cString (Bytes.overwrite data last [0]) start).length ≤ last := by
  have front : (data.take last).length = last := List.length_take_of_le (by omega)
  have nul : ((Bytes.overwrite data last [0]).drop start)[last - start]? = some 0 := by
    have place : start + (last - start) = (data.take last).length + 0 := by omega
    rw [List.getElem?_drop, place, Bytes.overwrite, List.append_assoc,
      List.getElem?_append_right (by omega), Nat.add_sub_cancel_left]
    rfl
  have short := length_takeWhile_le nul
  rw [cString]
  omega

section Calls

variable {target : Target} {sbuf : HdfSBufRaw}

theorem readRollback_int32 (target : Target) (sbuf : HdfSBufRaw) :
    (({ sbuf with readPos := sbuf.readPos + 4 } : HdfSBufRaw).readRollback target
      IntType.int32.size).1 = sbuf := by
  rw [HdfSBufRaw.readRollback, getAlignSize_int32]
  dsimp only
  rw [if_neg (by omega), Nat.add_sub_cancel]

namespace HdfSBufRaw.Within

section

variable (within : sbuf.Within target)
include within

theorem getLeftReadSize : sbuf.getLeftReadSize = sbuf.writePos - sbuf.readPos :=
  if_neg (Nat.not_lt.mpr within.read)

theorem move {count : Nat} (inside : count ≤ sbuf.writePos - sbuf.readPos) :
    ({ sbuf with readPos := sbuf.readPos + count } : HdfSBufRaw).Within target := by
  have read := within.read
  exact ⟨by dsimp only; omega, within.write, within.fits⟩

theorem readInt32 : (4 ≤ sbuf.writePos - sbuf.readPos ∧ ∃ length,
      sbuf.readInt32 target = (some length, { sbuf with readPos := sbuf.readPos + 4 })) ∨
    (sbuf.writePos - sbuf.readPos < 4 ∧ sbuf.readInt32 target = (none, sbuf)) := by
  rw [HdfSBufRaw.readInt32, readInteger, read_eq, readArea, getAlignSize_int32, within.getLeftReadSize]
  by_cases few : sbuf.writePos - sbuf.readPos < 4
  · rw [if_pos few]
    exact .inr ⟨few, rfl⟩
  · rw [if_neg few]
    exact .inl ⟨by omega, _, rfl⟩

theorem integer (type : IntType) : ((ReadCall.integer type).perform target sbuf).2.Within target ∧
      ReadCall.Contained target sbuf (.integer type) := by
  have modulus := target.uint32Modulus_le
  rw [uint32Modulus] at modulus
  have size : 0 < type.size ∧ type.size ≤ 8 := by
    cases type <;> decide
  have align := @getAlignSize_eq target type.size (by omega)
  have up := le_alignUp type.size
  unfold ReadCall.Contained
  rw [ReadCall.given, ReadCall.perform, readInteger, read_eq]
  dsimp only
  rw [readArea, if_neg (by omega), align, within.getLeftReadSize]
  by_cases few : sbuf.writePos - sbuf.readPos < alignUp type.size
  · rw [if_pos few]
    exact ⟨within, rfl⟩
  · rw [if_neg few]
    exact ⟨within.move (by omega), Nat.le_refl _, by simp only [Area.end_]; omega⟩

theorem buffer : (ReadCall.buffer.perform target sbuf).2.Within target ∧
      (ReadCall.Contained target sbuf .buffer ↔ ReadCall.Sized target sbuf .buffer) := by
  unfold ReadCall.Contained ReadCall.Sized
  rw [ReadCall.given, ReadCall.perform, readBuffer_eq]
  rw [readBufferArea]
  rcases within.readInt32 with ⟨enough, length, taken⟩ | ⟨few, taken⟩
  · have next := within.move enough
    have left : (HdfSBufRaw.getLeftReadSize { sbuf with readPos := sbuf.readPos + 4 }) =
        sbuf.writePos - (sbuf.readPos + 4) := next.getLeftReadSize
    rw [taken]
    dsimp only
    rw [left]
    by_cases zero : length = 0
    · rw [if_pos zero]
      refine ⟨next, iff_of_true trivial fun other same _ negative => ?_⟩
      rw [← some_inj.mp same, zero] at negative
      exact absurd negative (by decide)
    · rw [if_neg zero]
      have up := le_alignUp length.toNat
      have positive := @getAlignSize_positive target length
      have negative := @getAlignSize_negative target length
      generalize getAlignSize target (sizeOfInt32 target length) = alignSize at *
      by_cases few : sbuf.writePos - (sbuf.readPos + 4) < alignSize
      · rw [if_pos few, readRollback_int32]
        refine ⟨within, iff_of_true rfl fun other same last below => ?_⟩
        obtain rfl := some_inj.mp same
        omega
      · rw [if_neg few]
        have moved := @move target _ next alignSize (by dsimp only; omega)
        refine ⟨moved, ?_⟩
        dsimp only
        rw [Area.end_]
        dsimp only
        constructor
        · rintro contained other same - -
          obtain rfl := some_inj.mp same
          exact contained.2
        · intro sized
          refine ⟨Nat.le_add_right _ _, ?_⟩
          by_cases below : length.toInt < 0
          · by_cases last : -4 < length.toInt
            · exact sized length rfl last below
            · omega
          · omega
  · rw [taken]
    exact ⟨within, iff_of_true rfl fun length other => by cases other⟩

theorem string : (ReadCall.string.perform target sbuf).2.Within target ∧
      (ReadCall.Contained target sbuf .string ↔ ReadCall.Sized target sbuf .string) := by
  have write := within.write
  unfold ReadCall.Contained ReadCall.Sized
  rw [ReadCall.given, ReadCall.perform, (sbuf.readString_eq target).1]
  rw [readStringArea]
  rcases within.readInt32 with ⟨enough, length, taken⟩ | ⟨few, taken⟩
  · have next := within.move enough
    have left : (HdfSBufRaw.getLeftReadSize { sbuf with readPos := sbuf.readPos + 4 }) =
        sbuf.writePos - (sbuf.readPos + 4) := next.getLeftReadSize
    rw [taken]
    dsimp only
    rw [left]
    by_cases low : length.toInt ≤ 0
    · rw [if_pos low]
      refine ⟨next, ?_⟩
      dsimp only
      by_cases zero : length = 0
      · rw [zero]
        refine iff_of_true trivial fun other same => ?_
        rw [← some_inj.mp same]
        decide
      · rw [if_neg fun same => zero (some_inj.mp same)]
        refine iff_of_false (by omega) fun sized => zero ?_
        have positive := sized length rfl
        exact BitVec.eq_of_toInt_eq ((Int.le_antisymm low positive).trans BitVec.toInt_zero.symm)
    · rw [if_neg low]
      have rounded := @getAlignSize_positive target length (by omega)
      have up := le_alignUp length.toNat
      have sized : ∀ other, some length = some other → 0 ≤ other.toInt := by
        intro other same
        rw [← some_inj.mp same]
        omega
      by_cases refused : int16Max < length.toNat ∨ sbuf.writePos - (sbuf.readPos + 4) <
          getAlignSize target (sizeOfInt32 target length)
      · rw [if_pos refused, readRollback_int32]
        refine ⟨within, ?_⟩
        rw [if_neg fun same => low (by rw [some_inj.mp same]; decide)]
        exact iff_of_true rfl sized
      · rw [if_neg refused]
        have some_ : 0 < length.toNat := by
          by_contra zero
          exact low (by rw [BitVec.toInt_eq_toNat_of_lt (by omega)]; omega)
        have inside : sbuf.readPos + 4 + length.toNat - 1 + 1 ≤ sbuf.data.length := by omega
        have same := @Bytes.length_overwrite sbuf.data [0] _ inside
        have ends := @length_cString_le sbuf.data (sbuf.readPos + 4) _ inside (by omega)
        refine ⟨⟨?_, ?_, ?_⟩, iff_of_true ⟨Nat.le_add_right _ _, ?_⟩ sized⟩
        · dsimp only
          omega
        · rw [same]
          exact write
        · rw [same]
          exact within.fits
        · rw [Area.end_]
          dsimp only
          omega
  · rw [taken]
    refine ⟨within, ?_⟩
    exact iff_of_true rfl fun length other => by cases other

end

end HdfSBufRaw.Within

theorem ReadCall.step (within : sbuf.Within target) (call : ReadCall) :
    (call.perform target sbuf).2.Within target ∧
      (call.Contained target sbuf ↔ call.Sized target sbuf) := by
  cases call with
  | integer type =>
    obtain ⟨next, contained⟩ := within.integer type
    exact ⟨next, iff_of_true contained trivial⟩
  | buffer => exact within.buffer
  | string => exact within.string

theorem HdfSBufRaw.Within.readAll (within : sbuf.Within target) (calls : List ReadCall) :
    (readAll target calls sbuf).Within target := by
  induction calls generalizing sbuf with
  | nil => exact within
  | cons call rest hypothesis => exact hypothesis (call.step within).1

end Calls

/-- In every sequence of read calls, each call fails with the position unchanged or gives what is
left to read, and the position never passes the end. -/
structure Reads (target : Target) (sbuf : HdfSBufRaw) (calls : List ReadCall) : Prop where
  contained : ∀ before call after, calls = before ++ call :: after →
    call.Contained target (readAll target before sbuf)
  ordered : ∀ before after, calls = before ++ after →
    (readAll target before sbuf).readPos ≤ (readAll target before sbuf).writePos

/-- For memory of every content and size that is bound or received, every call gives what is there
exactly when the lengths that are met are sizes. -/
theorem reads_iff {target : Target} {sbuf : HdfSBufRaw} (received : Received target sbuf)
    (calls : List ReadCall) :
    Reads target sbuf calls ↔ ∀ before call after, calls = before ++ call :: after →
      call.Sized target (readAll target before sbuf) := by
  have within := received.within
  constructor
  · intro reads before call after split
    exact (call.step (within.readAll before)).2.mp (reads.contained before call after split)
  · intro sized
    exact ⟨fun before call after split =>
      (call.step (within.readAll before)).2.mpr (sized before call after split),
      fun before _ _ => (within.readAll before).read⟩

def sampleMemory (bytes : Bytes) (address : Nat) : BitVec 8 := bytes.getD (address - 0x1000) 0

/-- Memory that is bound with some bytes. -/
def boundSample (bytes : Bytes) : HdfSBufRaw where
  writePos := bytes.length
  readPos := 0
  capacity := bytes.length
  data := Area.bytes (sampleMemory bytes) ⟨0x1000, bytes.length⟩
  isBind := true

/-- A buffer of two bytes. -/
theorem reads_iff_sample : Reads .lp64 (boundSample [2, 0, 0, 0, 7, 8, 0, 0]) [.buffer] := by
  have made : sbufBindRaw (sampleMemory [2, 0, 0, 0, 7, 8, 0, 0]) 0x1000 8 true =
      some (boundSample [2, 0, 0, 0, 7, 8, 0, 0]) := rfl
  refine (reads_iff (.bound (by decide) made) [.buffer]).mpr fun before call after split => ?_
  have read : ((boundSample [2, 0, 0, 0, 7, 8, 0, 0]).readInt32 .lp64).1 = some 2 := by
    decide
  cases before with
  | nil =>
    obtain ⟨rfl, -⟩ := List.cons.inj split
    intro length same _ negative
    rw [← Option.some_inj.mp (read.symm.trans same)] at negative
    exact absurd negative (by decide)
  | cons first rest =>
    obtain ⟨-, none_⟩ := List.cons.inj split
    cases rest <;> cases none_

/-- A buffer of a length of -1 is said to have 4294967295 bytes. -/
theorem negative_length : Received .lp64 (boundSample [0xFF, 0xFF, 0xFF, 0xFF, 7, 8, 0, 0]) ∧
      ReadCall.buffer.given .lp64 (boundSample [0xFF, 0xFF, 0xFF, 0xFF, 7, 8, 0, 0]) =
        some (some ⟨4, 4294967295⟩) ∧
      ¬Reads .lp64 (boundSample [0xFF, 0xFF, 0xFF, 0xFF, 7, 8, 0, 0]) [.buffer] := by
  have given : ReadCall.buffer.given .lp64 (boundSample [0xFF, 0xFF, 0xFF, 0xFF, 7, 8, 0, 0]) =
      some (some ⟨4, 4294967295⟩) := by
    decide
  have made : sbufBindRaw (sampleMemory [0xFF, 0xFF, 0xFF, 0xFF, 7, 8, 0, 0]) 0x1000 8 true =
      some (boundSample [0xFF, 0xFF, 0xFF, 0xFF, 7, 8, 0, 0]) := rfl
  refine ⟨.bound (by decide) made, given, fun reads => ?_⟩
  have contained := reads.contained [] .buffer [] rfl
  exact absurd contained.2 (by decide)

end TowerSafe.Sbuf
