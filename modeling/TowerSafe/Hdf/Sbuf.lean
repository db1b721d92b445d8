/-
This file models the raw serialization buffer of the driver framework: aligned pieces behind each
other in one storage that grows up to a limit, items of a length word and a payload, and the
rollback of a half written or half read item. What is stored is the padded pieces of the items that
were written, whatever was refused between them, and it is read back item by item. The reader of
strings refuses lengths that the writer takes: the round trip holds if and only if every string
that was written is short enough to be read.
-/

import TowerSafe.Library.Bytes
import Mathlib.Data.List.Flatten
import Mathlib.Data.List.TakeWhile

namespace TowerSafe.Sbuf

open Library Option
open List

/-! ### Sizes -/

/-- The targets differ in the width of `size_t`. -/
inductive Target where
  | ilp32
  | lp64

/-- One more than the largest `size_t`. -/
def Target.sizeModulus : Target → Nat
  | .ilp32 => 2 ^ 32
  | .lp64 => 2 ^ 64

/-- One more than the largest `uint32_t`. -/
def uint32Modulus : Nat := 2 ^ 32

def hdfSbufGrowSizeDefault : Nat := 256

def hdfSbufMaxSize : Nat := 512 * 1024

def hdfSbufAlign : Nat := 4

def int16Max : Nat := 32767

def securecMemMaxLen : Nat := 0x7fffffff

/-- `SbufRawImplGetAlignSize`: the mask clears the bits below the alignment. -/
def getAlignSize (target : Target) (size : Nat) : Nat :=
  (size + hdfSbufAlign - 1) % target.sizeModulus / hdfSbufAlign * hdfSbufAlign

def alignUp (size : Nat) : Nat := (size + 3) / 4 * 4

theorem le_alignUp (size : Nat) : size ≤ alignUp size := by
  unfold alignUp
  omega

theorem alignUp_lt (size : Nat) : alignUp size < size + 4 := by
  unfold alignUp
  omega

theorem Target.uint32Modulus_le (target : Target) : uint32Modulus ≤ target.sizeModulus := by
  cases target <;> decide

variable {target : Target}

theorem getAlignSize_eq {size : Nat} (fits : size + 3 < target.sizeModulus) :
    getAlignSize target size = alignUp size := by
  rw [getAlignSize, alignUp, hdfSbufAlign, Nat.mod_eq_of_lt (by omega)]
  omega

theorem getAlignSize_of_le {size : Nat} (small : size ≤ hdfSbufMaxSize) :
    getAlignSize target size = alignUp size := by
  have modulus := target.uint32Modulus_le
  rw [uint32Modulus] at modulus
  rw [hdfSbufMaxSize] at small
  exact getAlignSize_eq (by omega)

/-! ### The buffer -/

/-- `struct HdfSBufRaw`, with the storage that `data` points to. -/
structure HdfSBufRaw where
  writePos : Nat
  readPos : Nat
  capacity : Nat
  data : Bytes
  isBind : Bool

/-- `memcpy_s` to a place of some bytes: a count past `destMax` resets what is there. -/
def memcpyS (dest : Bytes) (start destMax : Nat) (src : Bytes) (count : Nat) : Bytes × Bool :=
  if destMax = 0 ∨ securecMemMaxLen < destMax then (dest, false)
  else if destMax < count then
    (Bytes.overwrite dest start (List.replicate destMax 0), false)
  else (Bytes.overwrite dest start (src.take count), true)

/-- `SbufRawImplNewInstance`: the two allocations may fail. -/
def newInstance (capacity : Nat) (instanceGranted dataGranted : Bool) : Option HdfSBufRaw :=
  if hdfSbufMaxSize < capacity then none
  else if !instanceGranted then none
  else if !dataGranted then none
  else some {
    writePos := 0
    readPos := 0
    capacity := capacity
    data := List.replicate capacity 0
    isBind := false }

namespace HdfSBufRaw

variable (target : Target) (sbuf : HdfSBufRaw)

def getLeftWriteSize : Nat :=
  if sbuf.capacity < sbuf.writePos then 0 else sbuf.capacity - sbuf.writePos

def getLeftReadSize : Nat :=
  if sbuf.writePos < sbuf.readPos then 0 else sbuf.writePos - sbuf.readPos

def writeRollback (size : Nat) : HdfSBufRaw × Bool :=
  let alignSize := getAlignSize target size
  if sbuf.writePos < alignSize then (sbuf, false)
  else ({ sbuf with writePos := sbuf.writePos - alignSize }, true)

def readRollback (size : Nat) : HdfSBufRaw × Bool :=
  let alignSize := getAlignSize target size
  if sbuf.readPos < alignSize then (sbuf, false)
  else ({ sbuf with readPos := sbuf.readPos - alignSize }, true)

/-- `SbufRawImplGrow`: the new size is kept in 32 bits; the allocation may fail. -/
def grow (growSize : Nat) (granted : Bool) : HdfSBufRaw × Bool :=
  let newSize :=
    getAlignSize target ((sbuf.capacity + growSize) % target.sizeModulus) % uint32Modulus
  if sbuf.isBind then (sbuf, false)
  else if newSize < sbuf.capacity then (sbuf, false)
  else if hdfSbufMaxSize < newSize then (sbuf, false)
  else if !granted then (sbuf, false)
  else
    let copied := memcpyS (List.replicate newSize 0) 0 newSize sbuf.data sbuf.writePos
    if copied.2 then ({ sbuf with data := copied.1, capacity := newSize }, true)
    else (sbuf, false)

/-- How much `SbufRawImplWrite` grows by, as the 32 bits that `SbufRawImplGrow` receives. -/
def growSize (alignSize : Nat) : Nat :=
  (if hdfSbufGrowSizeDefault < alignSize then
    (alignSize + hdfSbufGrowSizeDefault) % target.sizeModulus
  else hdfSbufGrowSizeDefault) % uint32Modulus

/-- The growth at the start of `SbufRawImplWrite`, where there is too little room. -/
def makeRoom (alignSize : Nat) (granted : Bool) : HdfSBufRaw × Bool :=
  if sbuf.getLeftWriteSize < alignSize then
    sbuf.grow target (growSize target alignSize) granted
  else (sbuf, true)

/-- `SbufRawImplWrite`, of a pointer with so many bytes behind it. -/
def write (data : Option Bytes) (size : Nat) (granted : Bool) : HdfSBufRaw × Bool :=
  match data with
  | none => (sbuf, false)
  | some data =>
    if size = 0 then (sbuf, true)
    else
      let alignSize := getAlignSize target size
      if alignSize < size then (sbuf, false)
      else
        let room := sbuf.makeRoom target alignSize granted
        if !room.2 then (room.1, false)
        else
          let copied := memcpyS room.1.data room.1.writePos room.1.getLeftWriteSize data size
          if copied.2 then
            ({ room.1 with data := copied.1, writePos := room.1.writePos + alignSize }, true)
          else ({ room.1 with data := copied.1 }, false)

/-- `SbufRawImplRead`: the bytes it copies out, if it succeeds. -/
def read (readSize : Nat) : Option Bytes × HdfSBufRaw :=
  if readSize = 0 then (some [], sbuf)
  else
    let alignSize := getAlignSize target readSize
    if sbuf.getLeftReadSize < alignSize then (none, sbuf)
    else (some (Bytes.slice sbuf.data sbuf.readPos readSize),
      { sbuf with readPos := sbuf.readPos + alignSize })

end HdfSBufRaw

/-! ### The calls -/

/-- The integer types that are written and read. -/
inductive IntType where
  | uint64 | uint32 | uint16 | uint8 | int64 | int32 | int16 | int8

/-- `sizeof` of an integer type. -/
def IntType.size : IntType → Nat
  | .uint64 | .int64 => 8
  | .uint32 | .int32 => 4
  | .uint16 | .int16 => 2
  | .uint8 | .int8 => 1

/-- The bits of a value of an integer type. -/
abbrev IntType.Value (type : IntType) : Type := BitVec (8 * type.size)

def IntType.bytes (type : IntType) (value : type.Value) : Bytes :=
  Bytes.ofNat type.size value.toNat

def IntType.ofBytes (type : IntType) (bytes : Bytes) : type.Value :=
  BitVec.ofNat _ (Bytes.toNat bytes)

/-- A buffer argument: the bytes behind a pointer, as many as a `uint32_t` can count. -/
structure Buffer where
  bytes : Bytes
  fits : bytes.length < uint32Modulus

/-- A string argument: the characters before the terminator. -/
structure CString where
  chars : Bytes
  noNul : ∀ char ∈ chars, char ≠ 0

def cString (data : Bytes) (start : Nat) : Bytes :=
  (data.drop start).takeWhile (· ≠ 0)

/-- A size where an `int32_t` is expected. -/
def int32OfSize (size : Nat) : IntType.int32.Value := BitVec.ofNat 32 size

/-- A length of type `int32_t` where a `size_t` is expected: the sign is extended. -/
def sizeOfInt32 (target : Target) (value : IntType.int32.Value) : Nat :=
  if value.toNat < 2 ^ 31 then value.toNat else target.sizeModulus - (2 ^ 32 - value.toNat)

namespace HdfSBufRaw

variable (target : Target) (sbuf : HdfSBufRaw)

/-- The writers of the integers hand the bytes of the value to `SbufRawImplWrite`. -/
def writeInteger (type : IntType) (value : type.Value) (granted : Bool) : HdfSBufRaw × Bool :=
  sbuf.write target (some (type.bytes value)) type.size granted

/-- The readers of the integers let `SbufRawImplRead` fill the value. -/
def readInteger (type : IntType) : Option type.Value × HdfSBufRaw :=
  let taken := sbuf.read target type.size
  (taken.1.map type.ofBytes, taken.2)

def writeUint64 := sbuf.writeInteger target .uint64

def writeUint32 := sbuf.writeInteger target .uint32

def writeUint16 := sbuf.writeInteger target .uint16

def writeUint8 := sbuf.writeInteger target .uint8

def writeInt64 := sbuf.writeInteger target .int64

def writeInt32 := sbuf.writeInteger target .int32

def writeInt16 := sbuf.writeInteger target .int16

def writeInt8 := sbuf.writeInteger target .int8

def readUint64 := sbuf.readInteger target .uint64

def readUint32 := sbuf.readInteger target .uint32

def readUint16 := sbuf.readInteger target .uint16

def readUint8 := sbuf.readInteger target .uint8

def readInt64 := sbuf.readInteger target .int64

def readInt32 := sbuf.readInteger target .int32

def readInt16 := sbuf.readInteger target .int16

def readInt8 := sbuf.readInteger target .int8

/-- `SbufRawImplWriteBuffer`: the length, then the bytes; the length is taken back where the bytes
are refused. -/
def writeBuffer (data : Option Bytes) (writeSize : Nat) (lengthGranted dataGranted : Bool) :
    HdfSBufRaw × Bool :=
  match data with
  | none => sbuf.writeInt32 target 0 lengthGranted
  | some data =>
    let length := sbuf.writeInt32 target (int32OfSize writeSize) lengthGranted
    if !length.2 then (length.1, false)
    else
      let written := length.1.write target (some data) writeSize dataGranted
      if !written.2 then ((written.1.writeRollback target IntType.int32.size).1, false)
      else (written.1, true)

/-- `SbufRawImplWriteString`: the terminator is written too. -/
def writeString (value : Option CString) (lengthGranted dataGranted : Bool) : HdfSBufRaw × Bool :=
  match value with
  | none => sbuf.writeBuffer target none 0 lengthGranted dataGranted
  | some value =>
    sbuf.writeBuffer target (some (value.chars ++ [0]))
      ((value.chars.length + 1) % uint32Modulus) lengthGranted dataGranted

/-- `SbufRawImplReadBuffer`: the bytes behind the pointer it sets, or NULL, if it succeeds. -/
def readBuffer : Option (Option Bytes) × HdfSBufRaw :=
  match sbuf.readInt32 target with
  | (none, sbuf) => (none, sbuf)
  | (some buffSize, sbuf) =>
    if buffSize = 0 then (some none, sbuf)
    else
      let alignSize := getAlignSize target (sizeOfInt32 target buffSize)
      if sbuf.getLeftReadSize < alignSize then
        (none, (sbuf.readRollback target IntType.int32.size).1)
      else (some (some (Bytes.slice sbuf.data sbuf.readPos buffSize.toNat)),
        { sbuf with readPos := sbuf.readPos + alignSize })

/-- `SbufRawImplReadString`: the string behind the pointer it returns, or NULL. -/
def readString : Option Bytes × HdfSBufRaw :=
  match sbuf.readInt32 target with
  | (none, sbuf) => (none, sbuf)
  | (some strLen, sbuf) =>
    if strLen.toInt ≤ 0 then (none, sbuf)
    else
      let alignSize := getAlignSize target (sizeOfInt32 target strLen)
      if int16Max < strLen.toNat ∨ sbuf.getLeftReadSize < alignSize then
        (none, (sbuf.readRollback target IntType.int32.size).1)
      else
        let data := Bytes.overwrite sbuf.data (sbuf.readPos + strLen.toNat - 1) [0]
        (some (cString data sbuf.readPos),
          { sbuf with data := data, readPos := sbuf.readPos + alignSize })

end HdfSBufRaw

/-! ### Sequences of calls -/

/-- A call that writes an item. -/
inductive WriteCall where
  | integer (type : IntType) (value : type.Value)
  | buffer (data : Option Buffer)
  | string (value : Option CString)

/-- A call that reads an item. -/
inductive ReadCall where
  | integer (type : IntType)
  | buffer
  | string

/-- What a read call gives: a value if it succeeds, or a pointer that may be NULL. -/
inductive Result where
  | integer (type : IntType) (value : Option type.Value)
  | buffer (data : Option (Option Bytes))
  | string (value : Option Bytes)

/-- A write call, and whether the allocations it may ask for are granted. -/
structure WriteEvent where
  call : WriteCall
  lengthGranted : Bool
  dataGranted : Bool

/-- The write call is made. -/
def WriteEvent.perform (target : Target) (event : WriteEvent) (sbuf : HdfSBufRaw) :
    HdfSBufRaw × Bool :=
  match event.call with
  | .integer type value => sbuf.writeInteger target type value event.lengthGranted
  | .buffer none => sbuf.writeBuffer target none 0 event.lengthGranted event.dataGranted
  | .buffer (some data) =>
    sbuf.writeBuffer target (some data.bytes) data.bytes.length event.lengthGranted
      event.dataGranted
  | .string value => sbuf.writeString target value event.lengthGranted event.dataGranted

def ReadCall.perform (target : Target) (sbuf : HdfSBufRaw) : ReadCall → Result × HdfSBufRaw
  | .integer type =>
    ((.integer type (sbuf.readInteger target type).1), (sbuf.readInteger target type).2)
  | .buffer => (.buffer (sbuf.readBuffer target).1, (sbuf.readBuffer target).2)
  | .string => (.string (sbuf.readString target).1, (sbuf.readString target).2)

def ReadCall.failure : ReadCall → Result
  | .integer type => .integer type none
  | .buffer => .buffer none
  | .string => .string none

namespace WriteCall

/-- The read call that corresponds to a write call. -/
def reader : WriteCall → ReadCall
  | .integer type _ => .integer type
  | .buffer _ => .buffer
  | .string _ => .string

/-- What was written: NULL and the empty buffer are NULL. -/
def expected : WriteCall → Result
  | .integer type value => .integer type (some value)
  | .buffer none => .buffer (some none)
  | .buffer (some data) => .buffer (some (if data.bytes = [] then none else some data.bytes))
  | .string value => .string (value.map CString.chars)

/-- A string is short where its characters and the terminator are no more than `INT16_MAX`. -/
def Short : WriteCall → Prop
  | .string (some value) => value.chars.length + 1 ≤ int16Max
  | _ => True

end WriteCall

/-- The buffer after the write calls. -/
def writeAll (target : Target) : List WriteEvent → HdfSBufRaw → HdfSBufRaw
  | [], sbuf => sbuf
  | event :: rest, sbuf => writeAll target rest (event.perform target sbuf).1

/-- The calls that succeed. -/
def written (target : Target) : List WriteEvent → HdfSBufRaw → List WriteCall
  | [], _ => []
  | event :: rest, sbuf =>
    let result := event.perform target sbuf
    if result.2 then event.call :: written target rest result.1 else written target rest result.1

/-- The buffer after the read calls. -/
def readAll (target : Target) : List ReadCall → HdfSBufRaw → HdfSBufRaw
  | [], sbuf => sbuf
  | call :: rest, sbuf => readAll target rest (call.perform target sbuf).2

/-- What the read calls give. -/
def results (target : Target) : List ReadCall → HdfSBufRaw → List Result
  | [], _ => []
  | call :: rest, sbuf =>
    (call.perform target sbuf).1 :: results target rest (call.perform target sbuf).2

namespace HdfSBufRaw

def stored (sbuf : HdfSBufRaw) : Bytes := sbuf.data.take sbuf.writePos

/-- The positions are in order, and within the limit. -/
def Ordered (sbuf : HdfSBufRaw) : Prop :=
  sbuf.readPos ≤ sbuf.writePos ∧ sbuf.writePos ≤ sbuf.capacity ∧ sbuf.capacity ≤ hdfSbufMaxSize

/-- Both positions and the stored bytes are as before. -/
def Same (sbuf next : HdfSBufRaw) : Prop :=
  next.readPos = sbuf.readPos ∧ next.writePos = sbuf.writePos ∧ next.stored = sbuf.stored

end HdfSBufRaw

/-- What is written is read back in order, and nothing after it; the positions are in order in
every state on the way, and what fails leaves the positions and the stored bytes. -/
structure RoundTrip (target : Target) (sbuf : HdfSBufRaw) (events : List WriteEvent) : Prop where
  values : results target ((written target events sbuf).map WriteCall.reader)
    (writeAll target events sbuf) = (written target events sbuf).map WriteCall.expected
  exhausted : ∀ call : ReadCall,
    call.perform target (readAll target ((written target events sbuf).map WriteCall.reader)
      (writeAll target events sbuf)) =
    (call.failure, readAll target ((written target events sbuf).map WriteCall.reader)
      (writeAll target events sbuf))
  orderedWrites : ∀ before after, events = before ++ after →
    (writeAll target before sbuf).Ordered
  orderedReads : ∀ before after, written target events sbuf = before ++ after →
    (readAll target (before.map WriteCall.reader) (writeAll target events sbuf)).Ordered
  failedWrites : ∀ before event after, events = before ++ event :: after →
    (event.perform target (writeAll target before sbuf)).2 = false →
    (writeAll target before sbuf).Same (event.perform target (writeAll target before sbuf)).1
  failedReads : ∀ before call after, written target events sbuf = before ++ call :: after →
    (call.reader.perform target (readAll target (before.map WriteCall.reader)
      (writeAll target events sbuf))).1 = call.reader.failure → call.expected ≠ call.reader.failure →
    (readAll target (before.map WriteCall.reader) (writeAll target events sbuf)).Same
      (call.reader.perform target (readAll target (before.map WriteCall.reader)
        (writeAll target events sbuf))).2

/-! ### Pieces -/

def Padded (piece chunk : Bytes) : Prop :=
  chunk.length = alignUp piece.length ∧ chunk.take piece.length = piece

/-- Padded pieces lie behind each other. -/
def Laid : List Bytes → Bytes → Prop
  | [], bytes => bytes = []
  | piece :: rest, bytes =>
    ∃ chunk tail, bytes = chunk ++ tail ∧ Padded piece chunk ∧ Laid rest tail

theorem Laid.append {first second : List Bytes} {front back : Bytes} (before : Laid first front)
    (behind : Laid second back) : Laid (first ++ second) (front ++ back) := by
  induction first generalizing front with
  | nil =>
    obtain rfl : front = [] := before
    exact behind
  | cons piece rest hypothesis =>
    obtain ⟨chunk, tail, rfl, padded, laid⟩ := before
    exact ⟨chunk, tail ++ back, append_assoc _ _ _, padded, hypothesis laid⟩

theorem Laid.split {first second : List Bytes} {bytes : Bytes} (laid : Laid (first ++ second) bytes) :
    ∃ front back, bytes = front ++ back ∧ Laid first front ∧ Laid second back := by
  induction first generalizing bytes with
  | nil => exact ⟨[], bytes, rfl, rfl, laid⟩
  | cons piece rest hypothesis =>
    obtain ⟨chunk, tail, rfl, padded, further⟩ := laid
    obtain ⟨front, back, rfl, before, behind⟩ := hypothesis further
    exact ⟨chunk ++ front, back, (append_assoc _ _ _).symm,
      ⟨chunk, front, rfl, padded, before⟩, behind⟩

theorem laid_singleton {piece chunk : Bytes} (padded : Padded piece chunk) : Laid [piece] chunk :=
  ⟨chunk, [], (append_nil _).symm, padded, rfl⟩

/-- The length of a string with its terminator, as the 32 bits that are written. -/
def CString.writeSize (value : CString) : Nat := (value.chars.length + 1) % uint32Modulus

def CString.payload (value : CString) : Bytes := (value.chars ++ [0]).take value.writeSize

theorem CString.writeSize_le (value : CString) : value.writeSize ≤ (value.chars ++ [0]).length := by
  rw [length_append]
  exact Nat.mod_le _ _

theorem CString.length_payload (value : CString) : value.payload.length = value.writeSize :=
  length_take_of_le value.writeSize_le

def WriteCall.pieces : WriteCall → List Bytes
  | .integer type value => [type.bytes value]
  | .buffer none => [IntType.int32.bytes 0]
  | .buffer (some data) => [IntType.int32.bytes (int32OfSize data.bytes.length), data.bytes]
  | .string none => [IntType.int32.bytes 0]
  | .string (some value) =>
    [IntType.int32.bytes (int32OfSize value.writeSize), value.payload]

/-! ### Writing -/

namespace HdfSBufRaw

variable {target : Target} {sbuf next : HdfSBufRaw}

/-- The positions are in order, and the storage is as long as the capacity says. -/
structure Sound (sbuf : HdfSBufRaw) : Prop where
  readPos_le : sbuf.readPos ≤ sbuf.writePos
  writePos_le : sbuf.writePos ≤ sbuf.capacity
  capacity_le : sbuf.capacity ≤ hdfSbufMaxSize
  length : sbuf.data.length = sbuf.capacity

theorem Sound.ordered (sound : sbuf.Sound) : sbuf.Ordered :=
  ⟨sound.readPos_le, sound.writePos_le, sound.capacity_le⟩

theorem Sound.length_stored (sound : sbuf.Sound) : sbuf.stored.length = sbuf.writePos := by
  rw [stored, length_take, sound.length, Nat.min_eq_left sound.writePos_le]

theorem Same.refl (sbuf : HdfSBufRaw) : sbuf.Same sbuf := ⟨rfl, rfl, rfl⟩

theorem Same.trans {last : HdfSBufRaw} (first : sbuf.Same next) (second : next.Same last) :
    sbuf.Same last :=
  ⟨second.1.trans first.1, second.2.1.trans first.2.1, second.2.2.trans first.2.2⟩

theorem Sound.getLeftWriteSize (sound : sbuf.Sound) :
    sbuf.getLeftWriteSize = sbuf.capacity - sbuf.writePos :=
  if_neg (Nat.not_lt.mpr sound.writePos_le)

theorem Sound.getLeftReadSize (sound : sbuf.Sound) :
    sbuf.getLeftReadSize = sbuf.writePos - sbuf.readPos :=
  if_neg (Nat.not_lt.mpr sound.readPos_le)

theorem Sound.grow (sound : sbuf.Sound) (growSize : Nat) (granted : Bool) :
    (sbuf.grow target growSize granted).1.Sound ∧
      sbuf.Same (sbuf.grow target growSize granted).1 := by
  unfold HdfSBufRaw.grow
  dsimp only
  generalize getAlignSize target ((sbuf.capacity + growSize) % target.sizeModulus) %
    uint32Modulus = newSize
  split
  · exact ⟨sound, .refl sbuf⟩
  split
  · exact ⟨sound, .refl sbuf⟩
  split
  · exact ⟨sound, .refl sbuf⟩
  split
  · exact ⟨sound, .refl sbuf⟩
  rename_i _ notSmaller notLarger _
  split
  · rename_i copied
    have inside : sbuf.writePos ≤ newSize := sound.writePos_le.trans (Nat.not_lt.mp notSmaller)
    unfold memcpyS at copied ⊢
    split at copied
    · exact absurd copied Bool.false_ne_true
    split at copied
    · exact absurd copied Bool.false_ne_true
    rename_i positive fits
    rw [if_neg positive, if_neg fits]
    have taken : (sbuf.data.take sbuf.writePos).length = sbuf.writePos := sound.length_stored
    refine ⟨⟨sound.readPos_le, inside, Nat.not_lt.mp notLarger, ?_⟩, rfl, rfl, ?_⟩
    · rw [Bytes.length_overwrite (by rw [length_replicate]; omega), length_replicate]
    · change (Bytes.overwrite _ 0 (sbuf.data.take sbuf.writePos)).take sbuf.writePos = sbuf.stored
      rw [Bytes.overwrite, take_zero, nil_append, take_left' taken, stored]
  · exact ⟨sound, .refl sbuf⟩

theorem capacity_of_grow {growSize : Nat} {granted : Bool}
    (grown : (sbuf.grow target growSize granted).2 = true) :
    (sbuf.grow target growSize granted).1.capacity =
      getAlignSize target ((sbuf.capacity + growSize) % target.sizeModulus) % uint32Modulus := by
  unfold HdfSBufRaw.grow at grown ⊢
  dsimp only at grown ⊢
  split at grown
  · exact absurd grown Bool.false_ne_true
  split at grown
  · exact absurd grown Bool.false_ne_true
  split at grown
  · exact absurd grown Bool.false_ne_true
  split at grown
  · exact absurd grown Bool.false_ne_true
  split at grown
  · rename_i bound smaller larger refused copied
    rw [if_neg bound, if_neg smaller, if_neg larger, if_neg refused, if_pos copied]
  · exact absurd grown Bool.false_ne_true

theorem Sound.makeRoom (sound : sbuf.Sound) (alignSize : Nat) (granted : Bool) :
    (sbuf.makeRoom target alignSize granted).1.Sound ∧
      sbuf.Same (sbuf.makeRoom target alignSize granted).1 := by
  unfold HdfSBufRaw.makeRoom
  split
  · exact sound.grow _ granted
  · exact ⟨sound, .refl sbuf⟩

theorem Sound.room_of_makeRoom (sound : sbuf.Sound) {size : Nat} {granted : Bool}
    (small : size ≤ hdfSbufMaxSize)
    (made : (sbuf.makeRoom target (alignUp size) granted).2 = true) :
    alignUp size ≤ (sbuf.makeRoom target (alignUp size) granted).1.getLeftWriteSize := by
  obtain ⟨soundAfter, same⟩ := @Sound.makeRoom target sbuf sound (alignUp size) granted
  have left := sound.getLeftWriteSize
  have below := alignUp_lt size
  have modulus := target.uint32Modulus_le
  have limit := sound.capacity_le
  rw [soundAfter.getLeftWriteSize, same.2.1]
  unfold HdfSBufRaw.makeRoom at made ⊢
  split at made
  · rename_i tooLittle
    rw [if_pos tooLittle]
    rw [capacity_of_grow made]
    have bounds : alignUp size ≤ HdfSBufRaw.growSize target (alignUp size) ∧
        HdfSBufRaw.growSize target (alignUp size) ≤ alignUp size + 256 := by
      unfold HdfSBufRaw.growSize
      rw [hdfSbufMaxSize] at small
      rw [uint32Modulus] at modulus ⊢
      rw [hdfSbufGrowSizeDefault]
      split
      · have inner : (alignUp size + 256) % target.sizeModulus = alignUp size + 256 :=
          Nat.mod_eq_of_lt (by omega)
        rw [Nat.mod_eq_of_lt (by omega)]
        omega
      · omega
    generalize HdfSBufRaw.growSize target (alignUp size) = amount at *
    rw [hdfSbufMaxSize] at small limit
    rw [uint32Modulus] at modulus ⊢
    have rounded := alignUp_lt (sbuf.capacity + amount)
    have atLeast := le_alignUp (sbuf.capacity + amount)
    have writePos_le := sound.writePos_le
    have inner : (sbuf.capacity + amount) % target.sizeModulus = sbuf.capacity + amount :=
      Nat.mod_eq_of_lt (by omega)
    rw [inner, getAlignSize_eq (by omega), Nat.mod_eq_of_lt (by omega)]
    omega
  · rename_i enough
    rw [if_neg enough]
    change alignUp size ≤ sbuf.capacity - sbuf.writePos
    omega

end HdfSBufRaw

theorem memcpyS_of_true {dest src : Bytes} {start destMax count : Nat}
    (copied : (memcpyS dest start destMax src count).2 = true) :
    count ≤ destMax ∧ (memcpyS dest start destMax src count).1 =
      Bytes.overwrite dest start (src.take count) := by
  unfold memcpyS at copied ⊢
  split at copied
  · exact absurd copied Bool.false_ne_true
  split at copied
  · exact absurd copied Bool.false_ne_true
  · rename_i positive fits
    rw [if_neg positive, if_neg fits]
    exact ⟨Nat.not_lt.mp fits, rfl⟩

theorem memcpyS_of_false {dest src : Bytes} {start destMax count : Nat}
    (inside : start + destMax ≤ dest.length)
    (refused : (memcpyS dest start destMax src count).2 = false) :
    (memcpyS dest start destMax src count).1.length = dest.length ∧
      (memcpyS dest start destMax src count).1.take start = dest.take start := by
  have length : (List.replicate destMax (0 : BitVec 8)).length = destMax := length_replicate
  unfold memcpyS at refused ⊢
  split
  · exact ⟨rfl, rfl⟩
  split
  · refine ⟨Bytes.length_overwrite (by rw [length]; exact inside), ?_⟩
    rw [Bytes.overwrite, append_assoc, take_left' (length_take_of_le (by omega))]
  · rename_i positive fits
    rw [if_neg positive, if_neg fits] at refused
    exact absurd refused.symm Bool.false_ne_true

namespace HdfSBufRaw

variable {target : Target} {sbuf next : HdfSBufRaw}

/-- What a call that writes may leave: the pieces behind what was stored, or the state of before. -/
structure Outcome (sbuf : HdfSBufRaw) (pieces : List Bytes) (result : HdfSBufRaw × Bool) :
    Prop where
  sound : result.1.Sound
  refused : result.2 = false → sbuf.Same result.1
  taken : result.2 = true → result.1.readPos = sbuf.readPos ∧
    ∃ chunk, Laid pieces chunk ∧ result.1.stored = sbuf.stored ++ chunk

theorem Outcome.of_same {pieces : List Bytes} (sound : next.Sound) (same : sbuf.Same next) :
    sbuf.Outcome pieces (next, false) :=
  ⟨sound, fun _ => same, fun taken => absurd taken Bool.false_ne_true⟩

theorem Sound.store (sound : sbuf.Sound) {piece : Bytes}
    (room : sbuf.writePos + alignUp piece.length ≤ sbuf.capacity) : ({ sbuf with
        data := Bytes.overwrite sbuf.data sbuf.writePos piece
        writePos := sbuf.writePos + alignUp piece.length } : HdfSBufRaw).Sound ∧
      ∃ chunk, Padded piece chunk ∧
        (Bytes.overwrite sbuf.data sbuf.writePos piece).take
          (sbuf.writePos + alignUp piece.length) = sbuf.stored ++ chunk := by
  have atLeast := le_alignUp piece.length
  have length := sound.length
  have overwritten : (Bytes.overwrite sbuf.data sbuf.writePos piece).length = sbuf.data.length :=
    Bytes.length_overwrite (by omega)
  refine ⟨⟨sound.readPos_le.trans (Nat.le_add_right _ _), room, sound.capacity_le,
    overwritten.trans length⟩, ?_⟩
  let after := piece ++ sbuf.data.drop (sbuf.writePos + piece.length)
  have longEnough : alignUp piece.length ≤ after.length := by
    rw [length_append, length_drop]
    omega
  refine ⟨after.take (alignUp piece.length), ⟨length_take_of_le longEnough, ?_⟩, ?_⟩
  · rw [take_take, Nat.min_eq_left atLeast, take_left]
  · rw [Bytes.overwrite, append_assoc]
    have front : (sbuf.data.take sbuf.writePos).length = sbuf.writePos := sound.length_stored
    have both := @List.take_length_add_append _ (sbuf.data.take sbuf.writePos) after
      (alignUp piece.length)
    rw [front] at both
    exact both

theorem Sound.write (sound : sbuf.Sound) {data : Bytes} {size : Nat} (granted : Bool)
    (inside : size ≤ data.length) :
    sbuf.Outcome [data.take size] (sbuf.write target (some data) size granted) := by
  have taken : (data.take size).length = size := length_take_of_le inside
  unfold HdfSBufRaw.write
  dsimp only
  split
  · rename_i zero
    subst zero
    refine ⟨sound, fun refused => absurd refused.symm Bool.false_ne_true, fun _ => ⟨rfl, [], ?_, ?_⟩⟩
    · exact laid_singleton ⟨by rw [take_zero]; rfl, rfl⟩
    · exact (append_nil _).symm
  split
  · exact .of_same sound (.refl sbuf)
  have made := @room_of_makeRoom target sbuf sound size granted
  have aligned := @getAlignSize_of_le target size
  obtain ⟨roomSound, roomSame⟩ := @Sound.makeRoom target sbuf sound (getAlignSize target size) granted
  generalize getAlignSize target size = alignSize at *
  split
  · exact .of_same roomSound roomSame
  rename_i yes
  rw [Bool.not_eq_true', Bool.not_eq_false] at yes
  have left := roomSound.getLeftWriteSize
  have limits : (sbuf.makeRoom target alignSize granted).1.writePos +
      (sbuf.makeRoom target alignSize granted).1.getLeftWriteSize ≤
      (sbuf.makeRoom target alignSize granted).1.data.length := by
    rw [roomSound.length]
    have := roomSound.writePos_le
    omega
  split
  · rename_i copied
    obtain ⟨fits, result⟩ := memcpyS_of_true copied
    have small : size ≤ hdfSbufMaxSize := by
      have := roomSound.capacity_le
      omega
    obtain rfl := aligned small
    have room := made small yes
    have writePos_le := roomSound.writePos_le
    rw [result]
    obtain ⟨stillSound, chunk, padded, stored⟩ := @Sound.store _ roomSound (data.take size)
      (by rw [taken]; omega)
    rw [taken] at stillSound stored
    refine ⟨stillSound, fun refused => absurd refused.symm Bool.false_ne_true,
      fun _ => ⟨roomSame.1, chunk,
      laid_singleton padded, ?_⟩⟩
    rw [← roomSame.2.2]
    exact stored
  · rename_i refused
    rw [Bool.not_eq_true] at refused
    obtain ⟨length, front⟩ := memcpyS_of_false limits refused
    exact .of_same ⟨roomSound.readPos_le, roomSound.writePos_le, roomSound.capacity_le,
      length.trans roomSound.length⟩ (roomSame.trans ⟨rfl, rfl, front⟩)

end HdfSBufRaw

theorem IntType.length_bytes (type : IntType) (value : type.Value) :
    (type.bytes value).length = type.size :=
  Bytes.length_ofNat _ _

theorem IntType.ofBytes_bytes (type : IntType) (value : type.Value) :
    type.ofBytes (type.bytes value) = value := by
  have fits : value.toNat < 256 ^ type.size := by
    have := value.isLt
    rwa [Nat.pow_mul] at this
  rw [ofBytes, bytes, Bytes.toNat_ofNat _ _ fits, BitVec.ofNat_toNat, BitVec.setWidth_eq]

theorem IntType.size_pos (type : IntType) : 0 < type.size := by
  cases type <;> decide

theorem length_of_padded_int32 {value : IntType.int32.Value} {chunk : Bytes}
    (padded : Padded (IntType.int32.bytes value) chunk) : chunk.length = 4 := by
  rw [padded.1, IntType.length_bytes]
  rfl

theorem getAlignSize_int32 (target : Target) : getAlignSize target IntType.int32.size = 4 :=
  getAlignSize_of_le (by decide)

namespace HdfSBufRaw

variable {target : Target} {sbuf next : HdfSBufRaw}

theorem Sound.writeInteger (sound : sbuf.Sound) (type : IntType) (value : type.Value)
    (granted : Bool) :
    sbuf.Outcome [type.bytes value] (sbuf.writeInteger target type value granted) := by
  have length := type.length_bytes value
  have outcome := @Sound.write target sbuf sound (type.bytes value) type.size granted
    (Nat.le_of_eq length.symm)
  rwa [take_of_length_le (Nat.le_of_eq length)] at outcome

theorem Sound.writeRollback (sound : sbuf.Sound) (after : next.Sound) {chunk : Bytes}
    (word : chunk.length = 4) (readPos : next.readPos = sbuf.readPos)
    (stored : next.stored = sbuf.stored ++ chunk) :
    (next.writeRollback target IntType.int32.size).1.Sound ∧
      sbuf.Same (next.writeRollback target IntType.int32.size).1 := by
  have length : next.writePos = sbuf.writePos + 4 := by
    rw [← after.length_stored, stored, length_append, sound.length_stored, word]
  have readPos_le := sound.readPos_le
  have writePos_le := after.writePos_le
  unfold HdfSBufRaw.writeRollback
  rw [getAlignSize_int32, if_neg (by omega)]
  have back : next.writePos - 4 = sbuf.writePos := by omega
  refine ⟨⟨?_, ?_, after.capacity_le, after.length⟩, readPos, back, ?_⟩
  · change next.readPos ≤ next.writePos - 4
    omega
  · change next.writePos - 4 ≤ next.capacity
    omega
  · change next.data.take (next.writePos - 4) = sbuf.stored
    have shorter : next.data.take sbuf.writePos = next.stored.take sbuf.writePos := by
      rw [HdfSBufRaw.stored, take_take, Nat.min_eq_left (by omega)]
    rw [back, shorter, stored, take_left' sound.length_stored]

theorem Sound.writeBuffer (sound : sbuf.Sound) {data : Bytes} {size : Nat}
    (lengthGranted dataGranted : Bool) (inside : size ≤ data.length) :
    sbuf.Outcome [IntType.int32.bytes (int32OfSize size), data.take size]
      (sbuf.writeBuffer target (some data) size lengthGranted dataGranted) := by
  unfold HdfSBufRaw.writeBuffer HdfSBufRaw.writeInt32
  dsimp only
  have first := @Sound.writeInteger target sbuf sound .int32 (int32OfSize size) lengthGranted
  generalize sbuf.writeInteger target .int32 (int32OfSize size) lengthGranted = length at first
  split
  · rename_i refused
    rw [Bool.not_eq_true'] at refused
    exact .of_same first.sound (first.refused refused)
  rename_i taken
  rw [Bool.not_eq_true', Bool.not_eq_false] at taken
  obtain ⟨readPos, word, ⟨chunk, _, rfl, padded, rfl⟩, stored⟩ := first.taken taken
  rw [append_nil] at stored
  have second := @Sound.write target length.1 first.sound data size dataGranted inside
  generalize length.1.write target (some data) size dataGranted = written at second
  split
  · rename_i refused
    rw [Bool.not_eq_true'] at refused
    obtain ⟨samePos, -, sameStored⟩ := second.refused refused
    obtain ⟨still, same⟩ := @Sound.writeRollback target sbuf written.1 sound second.sound chunk
      (length_of_padded_int32 padded) (samePos.trans readPos) (sameStored.trans stored)
    exact .of_same still same
  · rename_i copied
    rw [Bool.not_eq_true', Bool.not_eq_false] at copied
    obtain ⟨further, payload, laid, both⟩ := second.taken copied
    refine ⟨second.sound, fun refused => absurd refused.symm Bool.false_ne_true, fun _ =>
      ⟨further.trans readPos, chunk ++ payload, ⟨chunk, payload, rfl, padded, laid⟩, ?_⟩⟩
    rw [both, stored, append_assoc]

end HdfSBufRaw

variable {sbuf : HdfSBufRaw}

theorem WriteEvent.outcome (sound : sbuf.Sound) (event : WriteEvent) :
    sbuf.Outcome event.call.pieces (event.perform target sbuf) := by
  obtain ⟨call, lengthGranted, dataGranted⟩ := event
  cases call with
  | integer type value => exact sound.writeInteger type value lengthGranted
  | buffer data =>
    cases data with
    | none => exact sound.writeInteger .int32 0 lengthGranted
    | some data =>
      have outcome := @HdfSBufRaw.Sound.writeBuffer target sbuf sound data.bytes data.bytes.length
        lengthGranted dataGranted (Nat.le_refl _)
      rwa [take_length] at outcome
  | string value =>
    cases value with
    | none => exact sound.writeInteger .int32 0 lengthGranted
    | some value =>
      exact sound.writeBuffer lengthGranted dataGranted value.writeSize_le

/-! ### Reading -/

namespace HdfSBufRaw

variable {target : Target} {sbuf : HdfSBufRaw}

def remaining (sbuf : HdfSBufRaw) : Bytes := sbuf.stored.drop sbuf.readPos

def advance (sbuf : HdfSBufRaw) (count : Nat) : HdfSBufRaw :=
  { sbuf with readPos := sbuf.readPos + count }

theorem advance_advance (sbuf : HdfSBufRaw) (first second : Nat) :
    (sbuf.advance first).advance second = sbuf.advance (first + second) := by
  rw [advance, advance, advance, Nat.add_assoc]

section

variable (sound : sbuf.Sound)
include sound

theorem Sound.length_remaining :
    sbuf.remaining.length = sbuf.getLeftReadSize := by
  rw [remaining, length_drop, sound.length_stored, sound.getLeftReadSize]

theorem Sound.advance {front back : Bytes}
    (split : sbuf.remaining = front ++ back) :
    (sbuf.advance front.length).Sound ∧ (sbuf.advance front.length).remaining = back := by
  have length := sound.length_remaining
  have readPos_le := sound.readPos_le
  rw [split, length_append, sound.getLeftReadSize] at length
  refine ⟨⟨?_, sound.writePos_le, sound.capacity_le, sound.length⟩, ?_⟩
  · change sbuf.readPos + front.length ≤ sbuf.writePos
    omega
  · change sbuf.stored.drop (sbuf.readPos + front.length) = back
    rw [← drop_drop, ← remaining, split, drop_left]

theorem Sound.slice_eq {count : Nat} (inside : count ≤ sbuf.getLeftReadSize) :
    Bytes.slice sbuf.data sbuf.readPos count = sbuf.remaining.take count := by
  rw [sound.getLeftReadSize] at inside
  rw [remaining, stored, Bytes.slice, drop_take, take_take, Nat.min_eq_left inside]

theorem Sound.read {piece chunk tail : Bytes}
    (split : sbuf.remaining = chunk ++ tail) (padded : Padded piece chunk) :
    sbuf.read target piece.length = (some piece, sbuf.advance chunk.length) := by
  have left := sound.length_remaining
  have atLeast := le_alignUp piece.length
  have limits : sbuf.getLeftReadSize ≤ hdfSbufMaxSize := by
    have := sound.writePos_le
    have := sound.capacity_le
    rw [sound.getLeftReadSize]
    omega
  rw [split, length_append, padded.1] at left
  unfold HdfSBufRaw.read
  split
  · rename_i empty
    rw [padded.1, length_eq_zero_iff.mp empty]
    rfl
  · rw [getAlignSize_of_le (by omega), if_neg (by omega), sound.slice_eq (by omega), split,
      take_append_of_le_length (by rw [padded.1]; exact atLeast), padded.2, ← padded.1]
    rfl

theorem Sound.read_of_nil {size : Nat} (positive : 0 < size)
    (small : size ≤ hdfSbufMaxSize) (nothing : sbuf.remaining = []) :
    sbuf.read target size = (none, sbuf) := by
  have left := sound.length_remaining
  have atLeast := le_alignUp size
  rw [nothing, length_nil] at left
  unfold HdfSBufRaw.read
  rw [if_neg (by omega)]
  rw [getAlignSize_of_le small, if_pos (by omega)]

theorem Sound.readInteger {type : IntType} {value : type.Value}
    {chunk tail : Bytes} (split : sbuf.remaining = chunk ++ tail)
    (padded : Padded (type.bytes value) chunk) :
    sbuf.readInteger target type = (some value, sbuf.advance chunk.length) := by
  have taken := @Sound.read target sbuf sound (type.bytes value) chunk tail split padded
  rw [type.length_bytes] at taken
  rw [HdfSBufRaw.readInteger, taken]
  rw [map_some, type.ofBytes_bytes]

theorem Sound.readInteger_of_nil (type : IntType)
    (nothing : sbuf.remaining = []) : sbuf.readInteger target type = (none, sbuf) := by
  rw [HdfSBufRaw.readInteger, sound.read_of_nil type.size_pos (by cases type <;> decide) nothing]
  rfl

end

end HdfSBufRaw

theorem sizeOfInt32_ofNat {size : Nat} (small : size ≤ hdfSbufMaxSize) :
    (int32OfSize size).toNat = size ∧ sizeOfInt32 target (int32OfSize size) = size ∧
      (int32OfSize size).toInt = size := by
  rw [hdfSbufMaxSize] at small
  have value : (int32OfSize size).toNat = size :=
    (BitVec.toNat_ofNat size 32).trans (Nat.mod_eq_of_lt (by omega))
  refine ⟨value, ?_, ?_⟩
  · rw [sizeOfInt32, value, if_pos (by omega)]
  · have positive : 2 * (int32OfSize size).toNat < 2 ^ (8 * IntType.int32.size) := by
      rw [value]
      change 2 * size < 2 ^ 32
      omega
    rw [BitVec.toInt_eq_toNat_of_lt positive, value]

namespace HdfSBufRaw

variable {target : Target} {sbuf : HdfSBufRaw}

theorem Sound.readBuffer (sound : sbuf.Sound) {payload word chunk tail : Bytes}
    (split : sbuf.remaining = word ++ (chunk ++ tail))
    (length : Padded (IntType.int32.bytes (int32OfSize payload.length)) word)
    (padded : Padded payload chunk) : sbuf.readBuffer target =
      (some (if payload = [] then none else some payload),
        sbuf.advance (word ++ chunk).length) := by
  obtain ⟨soundAfter, after⟩ := sound.advance split
  have left := soundAfter.length_remaining
  have atLeast := le_alignUp payload.length
  rw [after, length_append, padded.1] at left
  have small : payload.length ≤ hdfSbufMaxSize := by
    have := soundAfter.writePos_le
    have := soundAfter.capacity_le
    rw [soundAfter.getLeftReadSize] at left
    omega
  obtain ⟨value, size, -⟩ := @sizeOfInt32_ofNat target payload.length small
  rw [HdfSBufRaw.readBuffer, HdfSBufRaw.readInt32, sound.readInteger split length]
  dsimp only
  by_cases empty : payload = []
  · subst empty
    rw [length_append, padded.1]
    rfl
  have nonzero : int32OfSize payload.length ≠ 0 := by
    intro zero
    rw [zero] at value
    exact empty (length_eq_zero_iff.mp (value.symm.trans rfl))
  rw [if_neg nonzero, if_neg empty, size, getAlignSize_of_le small, if_neg (by omega), value,
    soundAfter.slice_eq (by omega), after,
    take_append_of_le_length (by rw [padded.1]; exact atLeast), padded.2,
    length_append, padded.1, ← advance_advance]
  rfl

theorem Sound.readBuffer_of_zero (sound : sbuf.Sound) {word tail : Bytes}
    (split : sbuf.remaining = word ++ tail) (zero : Padded (IntType.int32.bytes 0) word) :
    sbuf.readBuffer target = (some none, sbuf.advance word.length) := by
  rw [HdfSBufRaw.readBuffer, HdfSBufRaw.readInt32, sound.readInteger split zero]
  rfl

theorem Sound.readString_of_zero (sound : sbuf.Sound) {word tail : Bytes}
    (split : sbuf.remaining = word ++ tail) (zero : Padded (IntType.int32.bytes 0) word) :
    sbuf.readString target = (none, sbuf.advance word.length) := by
  rw [HdfSBufRaw.readString, HdfSBufRaw.readInt32, sound.readInteger split zero]
  rfl

end HdfSBufRaw

theorem takeWhile_terminated {chars : Bytes} (noNul : ∀ char ∈ chars, char ≠ 0) (after : Bytes) :
    (chars ++ 0 :: after).takeWhile (· ≠ 0) = chars := by
  rw [takeWhile_append_of_pos (by simpa using noNul), takeWhile_cons_of_neg (by decide),
    append_nil]

theorem length_takeWhile_le {bytes : Bytes} {index : Nat} (nul : bytes[index]? = some 0) :
    (bytes.takeWhile (· ≠ 0)).length ≤ index := by
  by_contra longer
  rw [Nat.not_le] at longer
  have inside : (bytes.takeWhile (· ≠ 0))[index]? = some 0 := by
    rw [← nul]
    conv_rhs => rw [← takeWhile_append_dropWhile (p := (· ≠ 0)) (l := bytes)]
    rw [List.getElem?_append_left longer]
  have member := mem_takeWhile_imp (mem_of_getElem? inside)
  exact absurd member (by decide)

namespace HdfSBufRaw

variable {target : Target} {sbuf : HdfSBufRaw}

theorem Sound.drop_eq (sound : sbuf.Sound) :
    sbuf.data.drop sbuf.readPos = sbuf.remaining ++ sbuf.data.drop sbuf.writePos := by
  have short : (sbuf.data.take sbuf.writePos).length = sbuf.writePos := sound.length_stored
  rw [remaining, stored]
  conv_lhs => rw [← take_append_drop sbuf.writePos sbuf.data]
  rw [drop_append_of_le_length (by rw [short]; exact sound.readPos_le)]

theorem Sound.readString (sound : sbuf.Sound) {value : CString} {word chunk tail : Bytes}
    (short : value.chars.length + 1 ≤ int16Max) (split : sbuf.remaining = word ++ (chunk ++ tail))
    (length : Padded (IntType.int32.bytes (int32OfSize value.writeSize)) word)
    (padded : Padded value.payload chunk) :
    sbuf.readString target = (some value.chars, sbuf.advance (word ++ chunk).length) := by
  have exact : value.writeSize = value.chars.length + 1 := by
    rw [CString.writeSize, uint32Modulus]
    rw [int16Max] at short
    exact Nat.mod_eq_of_lt (by omega)
  have whole : value.payload = value.chars ++ [0] := by
    rw [CString.payload, exact]
    exact take_of_length_le (by rw [length_append]; exact Nat.le_refl _)
  obtain ⟨soundAfter, after⟩ := sound.advance split
  have left := soundAfter.length_remaining
  have payload := value.length_payload
  rw [after, length_append, padded.1] at left
  have small : value.writeSize ≤ hdfSbufMaxSize := by
    rw [hdfSbufMaxSize]
    rw [int16Max] at short
    omega
  obtain ⟨number, size, signed⟩ := @sizeOfInt32_ofNat target value.writeSize small
  obtain ⟨padding, rfl⟩ : ∃ padding, chunk = value.chars ++ 0 :: padding := by
    refine ⟨chunk.drop value.payload.length, ?_⟩
    have split := take_append_drop value.payload.length chunk
    rw [padded.2, whole, append_assoc] at split
    rw [whole]
    exact split.symm
  have ahead : (sbuf.advance word.length).data.drop (sbuf.advance word.length).readPos =
      value.chars ++ 0 :: (padding ++ (tail ++ sbuf.data.drop sbuf.writePos)) := by
    rw [soundAfter.drop_eq, after, append_assoc, append_assoc]
    rfl
  have unchanged : Bytes.overwrite (sbuf.advance word.length).data
      ((sbuf.advance word.length).readPos + value.writeSize - 1) [0] =
        (sbuf.advance word.length).data := by
    have place : (sbuf.advance word.length).readPos + value.writeSize - 1 =
        (sbuf.advance word.length).readPos + value.chars.length := by
      omega
    rw [place]
    refine @Bytes.overwrite_same _ _ (padding ++ (tail ++ sbuf.data.drop sbuf.writePos)) _ ?_
    rw [← drop_drop, ahead, drop_left, singleton_append]
  rw [HdfSBufRaw.readString, HdfSBufRaw.readInt32, sound.readInteger split length]
  dsimp only
  have readable : ¬(int16Max < value.writeSize ∨
      (sbuf.advance word.length).getLeftReadSize < alignUp value.writeSize) := by
    rw [payload] at left
    omega
  rw [if_neg (by omega), number, size, getAlignSize_of_le small, if_neg readable,
    unchanged, cString, ahead, takeWhile_terminated value.noNul, length_append, padded.1,
    payload, ← advance_advance]
  rfl

theorem Sound.readString_of_long (sound : sbuf.Sound) {value : CString} {word tail : Bytes}
    (long : int16Max < value.chars.length + 1) (split : sbuf.remaining = word ++ tail)
    (length : Padded (IntType.int32.bytes (int32OfSize value.writeSize)) word) :
    (sbuf.readString target).1 ≠ some value.chars := by
  rw [HdfSBufRaw.readString, HdfSBufRaw.readInt32, sound.readInteger split length]
  dsimp only
  obtain ⟨soundAfter, -⟩ := sound.advance split
  have number : (int32OfSize value.writeSize).toNat = value.writeSize :=
    (BitVec.toNat_ofNat value.writeSize 32).trans (Nat.mod_eq_of_lt (Nat.mod_lt _ (by decide)))
  split
  · exact some_ne_none _ ∘ Eq.symm
  split
  · exact some_ne_none _ ∘ Eq.symm
  rename_i limits
  rw [not_or, number, Nat.not_lt] at limits
  have small : value.writeSize ≤ hdfSbufMaxSize := limits.1.trans (by decide)
  obtain ⟨-, size, signed⟩ := @sizeOfInt32_ofNat target value.writeSize small
  rw [size, getAlignSize_of_le small, soundAfter.getLeftReadSize] at limits
  have atLeast := le_alignUp value.writeSize
  have writePos_le := soundAfter.writePos_le
  have capacity := soundAfter.length
  rw [number, cString]
  generalize sbuf.advance word.length = next at *
  have nul : ((Bytes.overwrite next.data (next.readPos + value.writeSize - 1) [0]).drop
      next.readPos)[value.writeSize - 1]? = some 0 := by
    have front : (next.data.take (next.readPos + value.writeSize - 1)).length =
        next.readPos + (value.writeSize - 1) := by
      rw [length_take]
      omega
    rw [List.getElem?_drop, Bytes.overwrite, append_assoc,
      List.getElem?_append_right (Nat.le_of_eq front), front, Nat.sub_self]
    rfl
  have atMost := length_takeWhile_le nul
  intro equal
  rw [some.inj equal] at atMost
  omega

end HdfSBufRaw

/-! ### Items and runs of calls -/

theorem WriteCall.read_of_short (sound : sbuf.Sound)
    {call : WriteCall} (short : call.Short) {chunk tail : Bytes} (laid : Laid call.pieces chunk)
    (split : sbuf.remaining = chunk ++ tail) :
    call.reader.perform target sbuf = (call.expected, sbuf.advance chunk.length) := by
  cases call with
  | integer type value =>
    obtain ⟨chunk, _, rfl, padded, rfl⟩ := laid
    rw [append_nil] at split ⊢
    rw [reader, ReadCall.perform, sound.readInteger split padded]
    rfl
  | buffer data =>
    cases data with
    | none =>
      obtain ⟨chunk, _, rfl, padded, rfl⟩ := laid
      rw [append_nil] at split ⊢
      rw [reader, ReadCall.perform, sound.readBuffer_of_zero split padded]
      rfl
    | some data =>
      obtain ⟨word, _, rfl, length, chunk, _, rfl, padded, rfl⟩ := laid
      rw [append_nil] at split ⊢
      rw [append_assoc] at split
      rw [reader, ReadCall.perform, sound.readBuffer split length padded]
      rfl
  | string value =>
    cases value with
    | none =>
      obtain ⟨chunk, _, rfl, padded, rfl⟩ := laid
      rw [append_nil] at split ⊢
      rw [reader, ReadCall.perform, sound.readString_of_zero split padded]
      rfl
    | some value =>
      obtain ⟨word, _, rfl, length, chunk, _, rfl, padded, rfl⟩ := laid
      rw [append_nil] at split ⊢
      rw [append_assoc] at split
      rw [reader, ReadCall.perform, sound.readString short split length padded]
      rfl

theorem WriteCall.short_of_read (sound : sbuf.Sound)
    {call : WriteCall} {chunk tail : Bytes} (laid : Laid call.pieces chunk)
    (split : sbuf.remaining = chunk ++ tail)
    (same : (call.reader.perform target sbuf).1 = call.expected) : call.Short := by
  cases call with
  | integer _ _ => trivial
  | buffer _ => trivial
  | string value =>
    cases value with
    | none => trivial
    | some value =>
      obtain ⟨word, _, rfl, length, -⟩ := laid
      rw [append_assoc] at split
      by_contra long
      rw [Short, Nat.not_le] at long
      exact sound.readString_of_long long split length (Result.string.inj same)

theorem ReadCall.perform_of_nil (sound : sbuf.Sound)
    (nothing : sbuf.remaining = []) (call : ReadCall) :
    call.perform target sbuf = (call.failure, sbuf) := by
  have word := @HdfSBufRaw.Sound.readInteger_of_nil target sbuf sound .int32 nothing
  cases call with
  | integer type =>
    rw [perform, sound.readInteger_of_nil type nothing]
    rfl
  | buffer =>
    rw [perform, HdfSBufRaw.readBuffer, HdfSBufRaw.readInt32, word]
    rfl
  | string =>
    rw [perform, HdfSBufRaw.readString, HdfSBufRaw.readInt32, word]
    rfl

def allPieces (calls : List WriteCall) : List Bytes := (calls.map WriteCall.pieces).flatten

theorem allPieces_append (first second : List WriteCall) :
    allPieces (first ++ second) = allPieces first ++ allPieces second := by
  rw [allPieces, map_append, flatten_append]
  rfl

theorem readAll_of_short (sound : sbuf.Sound)
    {calls : List WriteCall} (short : ∀ call ∈ calls, call.Short) {front back : Bytes}
    (laid : Laid (allPieces calls) front) (split : sbuf.remaining = front ++ back) :
    results target (calls.map WriteCall.reader) sbuf = calls.map WriteCall.expected ∧
      readAll target (calls.map WriteCall.reader) sbuf = sbuf.advance front.length := by
  induction calls generalizing sbuf front with
  | nil =>
    obtain rfl : front = [] := laid
    exact ⟨rfl, rfl⟩
  | cons call rest hypothesis =>
    obtain ⟨chunk, tail, rfl, item, further⟩ := Laid.split laid
    rw [append_assoc] at split
    have read := @WriteCall.read_of_short target sbuf sound call (short call mem_cons_self)
      chunk (tail ++ back) item split
    obtain ⟨soundAfter, after⟩ := sound.advance split
    obtain ⟨values, last⟩ := hypothesis soundAfter
      (fun other member => short other (mem_cons_of_mem _ member)) further after
    refine ⟨?_, ?_⟩
    · rw [map_cons, results, read, values, map_cons]
    · rw [map_cons, readAll, read, last, HdfSBufRaw.advance_advance, length_append]

theorem short_of_results (sound : sbuf.Sound)
    {calls : List WriteCall} {front back : Bytes} (laid : Laid (allPieces calls) front)
    (split : sbuf.remaining = front ++ back)
    (same : results target (calls.map WriteCall.reader) sbuf = calls.map WriteCall.expected) :
    ∀ call ∈ calls, call.Short := by
  induction calls generalizing sbuf front with
  | nil => exact forall_mem_nil _
  | cons call rest hypothesis =>
    obtain ⟨chunk, tail, rfl, item, further⟩ := Laid.split laid
    rw [append_assoc] at split
    rw [map_cons, results, map_cons, List.cons.injEq] at same
    have short := WriteCall.short_of_read sound item split same.1
    have read := @WriteCall.read_of_short target sbuf sound call short chunk (tail ++ back) item
      split
    rw [read] at same
    obtain ⟨soundAfter, after⟩ := sound.advance split
    exact forall_mem_cons.mpr ⟨short, hypothesis soundAfter further after same.2⟩

theorem writeAll_outcome (sound : sbuf.Sound) (events : List WriteEvent) :
    (writeAll target events sbuf).Sound ∧
      (writeAll target events sbuf).readPos = sbuf.readPos ∧
        ∃ chunk, Laid (allPieces (written target events sbuf)) chunk ∧
          (writeAll target events sbuf).stored = sbuf.stored ++ chunk := by
  induction events generalizing sbuf with
  | nil => exact ⟨sound, rfl, [], rfl, (append_nil _).symm⟩
  | cons event rest hypothesis =>
    have outcome := @WriteEvent.outcome target sbuf sound event
    obtain ⟨soundAfter, readPos, chunk, laid, stored⟩ := hypothesis outcome.sound
    rw [writeAll, written]
    cases taken : (event.perform target sbuf).2 with
    | false =>
      obtain ⟨samePos, -, sameStored⟩ := outcome.refused taken
      exact ⟨soundAfter, readPos.trans samePos, chunk, laid, by rw [stored, sameStored]⟩
    | true =>
      obtain ⟨samePos, item, itemLaid, both⟩ := outcome.taken taken
      refine ⟨soundAfter, readPos.trans samePos, item ++ chunk, itemLaid.append laid, ?_⟩
      rw [stored, both, append_assoc]

theorem fresh_of_newInstance {capacity : Nat} {instanceGranted dataGranted : Bool}
    (fresh : newInstance capacity instanceGranted dataGranted = some sbuf) :
    sbuf.Sound ∧ sbuf.readPos = 0 ∧ sbuf.stored = [] ∧ sbuf.capacity = capacity := by
  obtain ⟨small, fresh⟩ := ite_none_left_eq_some.mp fresh
  obtain ⟨-, fresh⟩ := ite_none_left_eq_some.mp fresh
  obtain ⟨-, fresh⟩ := ite_none_left_eq_some.mp fresh
  obtain rfl := some.inj fresh
  exact ⟨⟨Nat.le_refl _, Nat.zero_le _, Nat.not_lt.mp small, length_replicate⟩, rfl, rfl, rfl⟩

theorem roundTrip_of_short (sound : sbuf.Sound)
    (atStart : sbuf.readPos = 0) (empty : sbuf.stored = []) {events : List WriteEvent}
    (short : ∀ call ∈ written target events sbuf, call.Short) : RoundTrip target sbuf events := by
  obtain ⟨soundAfter, readPos, chunk, laid, stored⟩ := @writeAll_outcome target sbuf sound events
  have remaining : (writeAll target events sbuf).remaining = chunk ++ [] := by
    rw [HdfSBufRaw.remaining, readPos, atStart, stored, empty, append_nil]
    rfl
  obtain ⟨values, last⟩ := @readAll_of_short target _ soundAfter _ short _ _ laid remaining
  obtain ⟨soundLast, nothing⟩ := soundAfter.advance remaining
  have between : ∀ before after, written target events sbuf = before ++ after →
      ∃ front, readAll target (before.map WriteCall.reader) (writeAll target events sbuf) =
        (writeAll target events sbuf).advance front ∧
          ((writeAll target events sbuf).advance front).Sound ∧
            Laid (allPieces after) ((writeAll target events sbuf).advance front).remaining := by
    intro before after split
    rw [split, allPieces_append] at laid
    obtain ⟨front, back, rfl, first, second⟩ := laid.split
    rw [append_nil] at remaining
    have shortBefore : ∀ call ∈ before, call.Short := fun call member =>
      short call (split ▸ mem_append_left _ member)
    obtain ⟨still, rest⟩ := soundAfter.advance remaining
    exact ⟨front.length, (readAll_of_short soundAfter shortBefore first remaining).2, still,
      rest ▸ second⟩
  exact {
    values := values
    exhausted := fun call => by
      rw [last]
      exact ReadCall.perform_of_nil soundLast nothing call
    orderedWrites := fun before _ _ => (writeAll_outcome sound before).1.ordered
    orderedReads := fun before after split => by
      obtain ⟨front, state, still, -⟩ := between before after split
      rw [state]
      exact still.ordered
    failedWrites := fun before event _ _ refused =>
      (WriteEvent.outcome (writeAll_outcome sound before).1 event).refused refused
    failedReads := fun before call after split failed differs => by
      obtain ⟨front, state, still, further⟩ := between before (call :: after) split
      obtain ⟨item, tail, rest, itemLaid, -⟩ := Laid.split further
      have read := @WriteCall.read_of_short target _ still call
        (short call (split ▸ mem_append_right _ mem_cons_self)) item tail itemLaid rest
      rw [state, read] at failed
      exact absurd failed differs }

theorem exists_of_mem_written {call : WriteCall} {events : List WriteEvent}
    (member : call ∈ written target events sbuf) :
    ∃ event ∈ events, event.call = call := by
  induction events generalizing sbuf with
  | nil => cases member
  | cons event rest hypothesis =>
    rw [written] at member
    split at member
    · rcases mem_cons.mp member with rfl | later
      · exact ⟨event, mem_cons_self, rfl⟩
      · obtain ⟨other, inside, equal⟩ := hypothesis later
        exact ⟨other, mem_cons_of_mem _ inside, equal⟩
    · obtain ⟨other, inside, equal⟩ := hypothesis member
      exact ⟨other, mem_cons_of_mem _ inside, equal⟩

theorem short_of_roundTrip (sound : sbuf.Sound)
    (atStart : sbuf.readPos = 0) (empty : sbuf.stored = []) {events : List WriteEvent}
    (roundTrip : RoundTrip target sbuf events) :
    ∀ call ∈ written target events sbuf, call.Short := by
  obtain ⟨soundAfter, readPos, chunk, laid, stored⟩ := @writeAll_outcome target sbuf sound events
  have remaining : (writeAll target events sbuf).remaining = chunk ++ [] := by
    rw [HdfSBufRaw.remaining, readPos, atStart, stored, empty, append_nil]
    rfl
  exact short_of_results soundAfter laid remaining roundTrip.values

/-- The values that were written are read back, in order and as the last ones, the positions stay
in order and what fails changes nothing, if every string is short; and exactly if every string that
was written is. -/
theorem roundTrip_iff {target : Target} {capacity : Nat} {instanceGranted dataGranted : Bool}
    {sbuf : HdfSBufRaw} (fresh : newInstance capacity instanceGranted dataGranted = some sbuf)
    (events : List WriteEvent) :
    ((∀ event ∈ events, event.call.Short) → RoundTrip target sbuf events) ∧
      (RoundTrip target sbuf events ↔ ∀ call ∈ written target events sbuf, call.Short) := by
  obtain ⟨sound, atStart, empty, -⟩ := fresh_of_newInstance fresh
  have exactly : RoundTrip target sbuf events ↔ ∀ call ∈ written target events sbuf, call.Short :=
    ⟨short_of_roundTrip sound atStart empty, roundTrip_of_short sound atStart empty⟩
  refine ⟨fun short => exactly.mpr fun call member => ?_, exactly⟩
  obtain ⟨event, inside, rfl⟩ := exists_of_mem_written member
  exact short event inside

/-! ### Samples -/

/-- An integer, missing and empty arguments, and a string. -/
def sampleEvents : List WriteEvent :=
  [⟨.integer .uint16 0xbeef, true, true⟩, ⟨.buffer none, true, true⟩,
    ⟨.buffer (some ⟨[], by decide⟩), true, true⟩, ⟨.string none, true, true⟩,
    ⟨.string (some ⟨[0x61, 0x62], by decide⟩), false, true⟩]

theorem roundTrip_sample :
    ∃ sbuf, newInstance 16 true true = some sbuf ∧ RoundTrip .ilp32 sbuf sampleEvents := by
  have fresh : newInstance 16 true true = some _ := rfl
  have short : ∀ event ∈ sampleEvents, event.call.Short := by
    rw [sampleEvents]
    simp only [List.forall_mem_cons, WriteCall.Short, List.not_mem_nil, false_implies,
      implies_true, and_true, true_and]
    decide
  exact ⟨_, fresh, (roundTrip_iff fresh sampleEvents).1 short⟩

namespace HdfSBufRaw

variable {target : Target} {sbuf : HdfSBufRaw}

theorem Sound.write_of_room (sound : sbuf.Sound) {data : Bytes} {size : Nat} (granted : Bool)
    (positive : 0 < size) (room : alignUp size ≤ sbuf.getLeftWriteSize) :
    sbuf.write target (some data) size granted = ({ sbuf with
          data := Bytes.overwrite sbuf.data sbuf.writePos (data.take size)
          writePos := sbuf.writePos + alignUp size }, true) := by
  have atLeast := le_alignUp size
  have left := sound.getLeftWriteSize
  have limit := sound.capacity_le
  have small : size ≤ hdfSbufMaxSize := by omega
  rw [hdfSbufMaxSize] at limit
  have valid : ¬(sbuf.getLeftWriteSize = 0 ∨ securecMemMaxLen < sbuf.getLeftWriteSize) := by
    rw [securecMemMaxLen]
    omega
  have noGrowth : sbuf.makeRoom target (alignUp size) granted = (sbuf, true) :=
    if_neg (Nat.not_lt.mpr room)
  have copied : memcpyS sbuf.data sbuf.writePos sbuf.getLeftWriteSize data size =
      (Bytes.overwrite sbuf.data sbuf.writePos (data.take size), true) := by
    rw [memcpyS, if_neg valid, if_neg (by omega)]
  rw [HdfSBufRaw.write]
  rw [if_neg (by omega), getAlignSize_of_le small, if_neg (by omega), noGrowth]
  simp only [Bool.not_true, Bool.false_eq_true, if_false, copied, if_true]

end HdfSBufRaw

theorem written_string_of_room (sound : sbuf.Sound)
    {value : CString} (positive : 0 < value.writeSize)
    (room : sbuf.writePos + 4 + alignUp value.writeSize ≤ sbuf.capacity) :
    written target [⟨.string (some value), true, true⟩] sbuf = [.string (some value)] := by
  have word : alignUp 4 = 4 := rfl
  have left := sound.getLeftWriteSize
  have length : sbuf.writeInt32 target (int32OfSize value.writeSize) true = _ :=
    @HdfSBufRaw.Sound.write_of_room target sbuf sound
      (IntType.int32.bytes (int32OfSize value.writeSize)) 4 true (by decide) (by omega)
  have stored := @HdfSBufRaw.Sound.writeInteger target sbuf sound .int32
    (int32OfSize value.writeSize) true
  have soundAfter := stored.sound
  rw [← HdfSBufRaw.writeInt32, length] at soundAfter
  have payload := @HdfSBufRaw.Sound.write_of_room target _ soundAfter (value.chars ++ [0])
    value.writeSize true positive (by
      rw [soundAfter.getLeftWriteSize]
      change alignUp value.writeSize ≤ sbuf.capacity - (sbuf.writePos + alignUp 4)
      omega)
  have performed : (WriteEvent.perform target ⟨.string (some value), true, true⟩ sbuf).2 =
      true := by
    change (sbuf.writeBuffer target (some (value.chars ++ [0])) value.writeSize true true).2 = true
    rw [HdfSBufRaw.writeBuffer, length]
    simp only [payload, Bool.not_true, Bool.false_eq_true, if_false]
  rw [written, performed, if_pos rfl, written]

/-- A string that the writer takes, one character too long for the reader. -/
def longString : CString where
  chars := List.replicate int16Max 0x61
  noNul := fun _ member => eq_of_mem_replicate member ▸ by decide

theorem length_longString : longString.chars.length = int16Max := length_replicate

/-- A string of as many characters as `INT16_MAX` is written, and not read. -/
theorem long_string_lost : ∃ sbuf, newInstance hdfSbufMaxSize true true = some sbuf ∧
      ¬RoundTrip .lp64 sbuf [⟨.string (some longString), true, true⟩] := by
  obtain ⟨sbuf, fresh⟩ : ∃ sbuf, newInstance hdfSbufMaxSize true true = some sbuf :=
    ⟨_, if_neg (Nat.lt_irrefl hdfSbufMaxSize)⟩
  obtain ⟨sound, atStart, empty, capacity⟩ := fresh_of_newInstance fresh
  refine ⟨sbuf, fresh, fun roundTrip => ?_⟩
  have size : longString.writeSize = 32768 := by
    rw [CString.writeSize, length_longString]
    rfl
  have room : sbuf.writePos + 4 + alignUp longString.writeSize ≤ sbuf.capacity := by
    rw [size, capacity, ← sound.length_stored, empty]
    decide
  have short := short_of_roundTrip sound atStart empty roundTrip
  rw [written_string_of_room sound (by rw [size]; decide) room] at short
  have fits : longString.chars.length + 1 ≤ int16Max := short _ mem_cons_self
  rw [length_longString] at fits
  exact absurd fits (Nat.not_succ_le_self int16Max)

end TowerSafe.Sbuf
