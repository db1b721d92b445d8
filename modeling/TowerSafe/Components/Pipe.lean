/-
This file embeds the pipes of `pipe.c`: a ring of bytes, in which a roll flag tells a full ring from
an empty one, and the calls that read, write and close, with the device mutex and the two semaphores
by which they wait for each other. What has been read, followed by what is in the ring, is in every
state what has been written.
-/

import TowerSafe.Library.Transition
import TowerSafe.Library.Bytes
import Mathlib.Data.List.Perm.Basic
import Mathlib.Data.List.Nodup

namespace TowerSafe.Pipe

open Library
open Option (ite_none_left_eq_some some_inj)
open List

/-! ### The ring -/

/-- The fields of `struct PipeDev` that make the ring. -/
structure PipeRing where
  ringBuffer : Bytes
  bufferSize : Nat
  readIndex : Nat
  writeIndex : Nat
  roll : Bool
  deriving DecidableEq

def securecMemMaxLen : Nat := 0x7fffffff

/-- `memcpy_s` into what is left of a buffer from a place on, of bytes that fit there. -/
def memcpyS (dest : Bytes) (start : Nat) (src : Bytes) : Bytes :=
  if src.length ≤ dest.length - start ∧ dest.length - start ≤ securecMemMaxLen ∧
      0 < src.length then
    dest.overwrite start src
  else dest

namespace PipeRing

/-- The bytes that can be read at once, unless there are none. -/
def readable (ring : PipeRing) : Option Nat :=
  if ring.readIndex < ring.writeIndex then some (ring.writeIndex - ring.readIndex)
  else if ring.writeIndex < ring.readIndex then some (ring.bufferSize - ring.readIndex)
  else if ring.roll = false then none
  else some (ring.bufferSize - ring.readIndex)

/-- `PipeRingbufferRead`, with the bytes for the buffer of the caller. -/
def pipeRingbufferRead (ring : PipeRing) (len : Nat) : Bytes × PipeRing :=
  match ring.readable with
  | none => ([], ring)
  | some nbytes =>
      let nbytes := if len < nbytes then len else nbytes
      let bytes := ring.ringBuffer.slice ring.readIndex nbytes
      if ring.bufferSize ≤ ring.readIndex + nbytes then
        (bytes, { ring with readIndex := 0, roll := false })
      else (bytes, { ring with readIndex := ring.readIndex + nbytes })

/-- The bytes that can be written at once, unless there is no room. -/
def writable (ring : PipeRing) : Option Nat :=
  if ring.readIndex < ring.writeIndex then some (ring.bufferSize - ring.writeIndex)
  else if ring.writeIndex < ring.readIndex then some (ring.readIndex - ring.writeIndex)
  else if ring.roll = true then none
  else some (ring.bufferSize - ring.writeIndex)

def pipeRingbufferWrite (ring : PipeRing) (buf : Bytes) : Nat × PipeRing :=
  match ring.writable with
  | none => (0, ring)
  | some nbytes =>
      let nbytes := if buf.length < nbytes then buf.length else nbytes
      let ringBuffer := memcpyS ring.ringBuffer ring.writeIndex (buf.take nbytes)
      if ring.bufferSize ≤ ring.writeIndex + nbytes then
        (nbytes, { ring with ringBuffer := ringBuffer, roll := true, writeIndex := 0 })
      else
        (nbytes, { ring with ringBuffer := ringBuffer, writeIndex := ring.writeIndex + nbytes })

/-- The test of `PipeRead` for an empty ring. -/
def isEmpty (ring : PipeRing) : Bool :=
  ring.readIndex == ring.writeIndex && ring.roll == false

def isFull (ring : PipeRing) : Bool :=
  ring.readIndex == ring.writeIndex && ring.roll == true

/-- The bytes in the ring, in the order in which they are read. -/
def contents (ring : PipeRing) : Bytes :=
  if ring.roll then
    ring.ringBuffer.slice ring.readIndex (ring.bufferSize - ring.readIndex) ++
      ring.ringBuffer.slice 0 ring.writeIndex
  else ring.ringBuffer.slice ring.readIndex (ring.writeIndex - ring.readIndex)

/-- The indexes are inside, and the one for writing is a round ahead exactly when the flag is
set. -/
structure Valid (ring : PipeRing) : Prop where
  length : ring.ringBuffer.length = ring.bufferSize
  read : ring.readIndex < ring.bufferSize
  write : ring.writeIndex < ring.bufferSize
  small : ring.bufferSize ≤ securecMemMaxLen
  rolled : ring.roll = true → ring.writeIndex ≤ ring.readIndex
  unrolled : ring.roll = false → ring.readIndex ≤ ring.writeIndex

variable {ring : PipeRing}

theorem readable_eq_none (empty : ring.isEmpty = true) : ring.readable = none := by
  rw [isEmpty, Bool.and_eq_true, beq_iff_eq, beq_iff_eq] at empty
  rw [readable, empty.1, if_neg (Nat.lt_irrefl _), if_neg (Nat.lt_irrefl _), if_pos empty.2]

theorem writable_eq_none (full : ring.isFull = true) : ring.writable = none := by
  rw [isFull, Bool.and_eq_true, beq_iff_eq, beq_iff_eq] at full
  rw [writable, full.1, if_neg (Nat.lt_irrefl _), if_neg (Nat.lt_irrefl _), if_pos full.2]

theorem Valid.readable (valid : ring.Valid) (filled : ring.isEmpty = false) : ring.readable =
      some (if ring.roll then ring.bufferSize - ring.readIndex
        else ring.writeIndex - ring.readIndex) := by
  have rolled := valid.rolled
  have unrolled := valid.unrolled
  rw [isEmpty] at filled
  rw [PipeRing.readable]
  cases roll : ring.roll with
  | true =>
    have ordered := rolled roll
    rw [if_neg (Nat.not_lt.mpr ordered), if_neg (Bool.true_eq_false.mp ·), if_pos rfl, ite_self]
  | false =>
    have ordered := unrolled roll
    rw [roll, beq_self_eq_true, Bool.and_true, beq_eq_false_iff_ne] at filled
    rw [if_pos (Nat.lt_of_le_of_ne ordered filled), if_neg Bool.false_ne_true]

theorem Valid.writable (valid : ring.Valid) (room : ring.isFull = false) : ring.writable =
      some (if ring.roll then ring.readIndex - ring.writeIndex
        else ring.bufferSize - ring.writeIndex) := by
  have rolled := valid.rolled
  have unrolled := valid.unrolled
  rw [isFull] at room
  rw [PipeRing.writable]
  cases roll : ring.roll with
  | true =>
    have ordered := rolled roll
    rw [roll, beq_self_eq_true, Bool.and_true, beq_eq_false_iff_ne] at room
    rw [if_neg (Nat.not_lt.mpr ordered), if_pos (Nat.lt_of_le_of_ne ordered (Ne.symm room)),
      if_pos rfl]
  | false =>
    have ordered := unrolled roll
    by_cases ahead : ring.readIndex < ring.writeIndex
    · rw [if_pos ahead, if_neg Bool.false_ne_true]
    · rw [if_neg ahead, if_neg (Nat.not_lt.mpr ordered), if_neg Bool.false_ne_true,
        if_neg Bool.false_ne_true]

theorem contents_of_isEmpty (empty : ring.isEmpty = true) : ring.contents = [] := by
  rw [isEmpty, Bool.and_eq_true, beq_iff_eq, beq_iff_eq] at empty
  rw [contents, empty.2, if_neg Bool.false_ne_true, empty.1, Nat.sub_self, Bytes.slice_zero]

section

variable (valid : ring.Valid)
include valid

theorem Valid.length_contents : ring.contents.length =
      if ring.roll then ring.bufferSize - ring.readIndex + ring.writeIndex
      else ring.writeIndex - ring.readIndex := by
  obtain ⟨length, read, write, _, _, _⟩ := valid
  rw [contents]
  cases ring.roll with
  | true =>
    rw [if_pos rfl, if_pos rfl, length_append, Bytes.length_slice (by omega),
      Bytes.length_slice (by omega)]
  | false =>
    rw [if_neg Bool.false_ne_true, if_neg Bool.false_ne_true, Bytes.length_slice (by omega)]

theorem Valid.isEmpty_iff : ring.isEmpty = true ↔ ring.contents = [] := by
  refine ⟨contents_of_isEmpty, fun none => ?_⟩
  have count := valid.length_contents
  obtain ⟨_, read, _, _, _, unrolled⟩ := valid
  rw [none, length_nil] at count
  rw [isEmpty, Bool.and_eq_true, beq_iff_eq]
  cases roll : ring.roll with
  | true =>
    rw [roll, if_pos rfl] at count
    omega
  | false =>
    have ordered := unrolled roll
    rw [roll, if_neg Bool.false_ne_true] at count
    exact ⟨by omega, rfl⟩

theorem Valid.isFull_iff :
    ring.isFull = true ↔ ring.contents.length = ring.bufferSize := by
  have count := valid.length_contents
  obtain ⟨_, read, write, _, rolled, _⟩ := valid
  rw [isFull, Bool.and_eq_true, beq_iff_eq, count]
  cases roll : ring.roll with
  | true =>
    rw [if_pos rfl]
    exact ⟨fun full => by omega, fun full => ⟨by omega, rfl⟩⟩
  | false =>
    rw [if_neg Bool.false_ne_true]
    exact ⟨fun full => Bool.noConfusion full.2, fun full => by omega⟩

theorem Valid.pipeRingbufferRead (len : Nat) :
    (ring.pipeRingbufferRead len).2.Valid ∧
      ring.contents = (ring.pipeRingbufferRead len).1 ++ (ring.pipeRingbufferRead len).2.contents ∧
      (ring.pipeRingbufferRead len).1.length ≤ len ∧
      (ring.pipeRingbufferRead len).2.bufferSize = ring.bufferSize := by
  rw [PipeRing.pipeRingbufferRead]
  cases filled : ring.isEmpty with
  | true =>
    rw [readable_eq_none filled]
    exact ⟨valid, rfl, Nat.zero_le _, rfl⟩
  | false =>
    rw [valid.readable filled]
    obtain ⟨length, read, write, small, rolled, unrolled⟩ := valid
    obtain ⟨ringBuffer, bufferSize, readIndex, writeIndex, roll⟩ := ring
    cases roll with
    | true =>
      have ordered : writeIndex ≤ readIndex := rolled rfl
      dsimp only at length read write small ⊢
      rw [if_pos rfl]
      split
      · next less =>
        rw [if_neg (by omega)]
        have parts : bufferSize - readIndex = len + (bufferSize - (readIndex + len)) := by omega
        refine ⟨⟨length, by change readIndex + len < bufferSize; omega, write, small,
          fun _ => by change writeIndex ≤ readIndex + len; omega, fun no => Bool.noConfusion no⟩,
          ?_, ?_, rfl⟩
        · rw [contents, contents, if_pos rfl, if_pos rfl]
          rw [parts, Bytes.slice_add, append_assoc]
        · rw [Bytes.length_slice (by omega)]
      · next enough =>
        rw [if_pos (by omega)]
        refine ⟨⟨length, Nat.zero_lt_of_lt read, write, small, fun no => Bool.noConfusion no,
          fun _ => Nat.zero_le _⟩, rfl, ?_, rfl⟩
        rw [Bytes.length_slice (by omega)]
        omega
    | false =>
      have ordered : readIndex ≤ writeIndex := unrolled rfl
      dsimp only at length read write small ⊢
      rw [if_neg Bool.false_ne_true]
      have split : ∀ nbytes, nbytes ≤ writeIndex - readIndex →
          writeIndex - readIndex = nbytes + (writeIndex - (readIndex + nbytes)) := by
        omega
      have bound : (if len < writeIndex - readIndex then len else writeIndex - readIndex) ≤
          writeIndex - readIndex ∧
          (if len < writeIndex - readIndex then len else writeIndex - readIndex) ≤ len := by
        split
        · next less => exact ⟨Nat.le_of_lt less, Nat.le_refl _⟩
        · next enough => exact ⟨Nat.le_refl _, Nat.le_of_not_lt enough⟩
      generalize (if len < writeIndex - readIndex then len else writeIndex - readIndex) =
        nbytes at bound ⊢
      rw [if_neg (by omega)]
      refine ⟨⟨length, by change readIndex + nbytes < bufferSize; omega, write, small,
        fun no => Bool.noConfusion no, fun _ => by change readIndex + nbytes ≤ writeIndex; omega⟩,
        ?_, ?_, rfl⟩
      · rw [contents, contents, if_neg Bool.false_ne_true, if_neg Bool.false_ne_true]
        rw [split nbytes bound.1, Bytes.slice_add]
      · rw [Bytes.length_slice (by omega)]
        exact bound.2

theorem Valid.pipeRingbufferWrite {buf : Bytes} (positive : 0 < buf.length) :
    (ring.pipeRingbufferWrite buf).2.Valid ∧
      (ring.pipeRingbufferWrite buf).2.contents =
        ring.contents ++ buf.take (ring.pipeRingbufferWrite buf).1 ∧
      (ring.pipeRingbufferWrite buf).1 ≤ buf.length ∧
      (ring.pipeRingbufferWrite buf).2.bufferSize = ring.bufferSize := by
  rw [PipeRing.pipeRingbufferWrite]
  cases room : ring.isFull with
  | true =>
    rw [writable_eq_none room]
    exact ⟨valid, by rw [take_zero, append_nil], Nat.zero_le _, rfl⟩
  | false =>
    rw [valid.writable room]
    have apart : ring.roll = true → ring.writeIndex ≠ ring.readIndex := by
      intro rolled same
      rw [isFull, rolled, same, beq_self_eq_true] at room
      exact Bool.noConfusion room
    obtain ⟨length, read, write, small, rolled, unrolled⟩ := valid
    obtain ⟨ringBuffer, bufferSize, readIndex, writeIndex, roll⟩ := ring
    have copied : ∀ nbytes, 0 < nbytes → nbytes ≤ buf.length → writeIndex + nbytes ≤ bufferSize →
        memcpyS ringBuffer writeIndex (buf.take nbytes) =
            ringBuffer.overwrite writeIndex (buf.take nbytes) ∧
          (buf.take nbytes).length = nbytes ∧
          (ringBuffer.overwrite writeIndex (buf.take nbytes)).length = bufferSize := by
      intro nbytes some_ less fits
      have count : (buf.take nbytes).length = nbytes := length_take_of_le less
      dsimp only at length small
      refine ⟨if_pos ⟨by omega, by omega, by omega⟩, count, ?_⟩
      rw [Bytes.length_overwrite (by omega), length]
    cases roll with
    | true =>
      have ordered : writeIndex < readIndex := Nat.lt_of_le_of_ne (rolled rfl) (apart rfl)
      dsimp only at length read write small ⊢
      rw [if_pos rfl]
      have bound : (if buf.length < readIndex - writeIndex then buf.length
            else readIndex - writeIndex) ≤ readIndex - writeIndex ∧
          (if buf.length < readIndex - writeIndex then buf.length
            else readIndex - writeIndex) ≤ buf.length ∧
          0 < if buf.length < readIndex - writeIndex then buf.length
            else readIndex - writeIndex := by
        split
        · next less => exact ⟨Nat.le_of_lt less, Nat.le_refl _, positive⟩
        · next enough =>
          exact ⟨Nat.le_refl _, Nat.le_of_not_lt enough, Nat.sub_pos_of_lt ordered⟩
      generalize (if buf.length < readIndex - writeIndex then buf.length
        else readIndex - writeIndex) = nbytes at bound ⊢
      obtain ⟨same, count, long⟩ := copied nbytes bound.2.2 bound.2.1 (by omega)
      rw [if_neg (by omega), same]
      refine ⟨⟨long, read, by change writeIndex + nbytes < bufferSize; omega, small,
        fun _ => by change writeIndex + nbytes ≤ readIndex; omega, fun no => Bool.noConfusion no⟩,
        ?_, bound.2.1, rfl⟩
      rw [contents, contents, if_pos rfl, if_pos rfl]
      dsimp only
      rw [Bytes.slice_add, Nat.zero_add, Bytes.slice_overwrite_after (by omega) (by omega),
        Bytes.slice_overwrite_before (by omega) (by omega), append_assoc]
      have last := @Bytes.slice_overwrite ringBuffer (buf.take nbytes) writeIndex (by omega)
      rw [count] at last
      rw [last]
    | false =>
      have ordered : readIndex ≤ writeIndex := unrolled rfl
      dsimp only at length read write small ⊢
      rw [if_neg Bool.false_ne_true]
      have bound : (if buf.length < bufferSize - writeIndex then buf.length
            else bufferSize - writeIndex) ≤ bufferSize - writeIndex ∧
          (if buf.length < bufferSize - writeIndex then buf.length
            else bufferSize - writeIndex) ≤ buf.length ∧
          0 < if buf.length < bufferSize - writeIndex then buf.length
            else bufferSize - writeIndex := by
        split
        · next less => exact ⟨Nat.le_of_lt less, Nat.le_refl _, positive⟩
        · next enough =>
          exact ⟨Nat.le_refl _, Nat.le_of_not_lt enough, Nat.sub_pos_of_lt write⟩
      generalize (if buf.length < bufferSize - writeIndex then buf.length
        else bufferSize - writeIndex) = nbytes at bound ⊢
      obtain ⟨same, count, long⟩ := copied nbytes bound.2.2 bound.2.1 (by omega)
      have last := @Bytes.slice_overwrite ringBuffer (buf.take nbytes) writeIndex (by omega)
      rw [count] at last
      have grown : (ringBuffer.overwrite writeIndex (buf.take nbytes)).slice readIndex
          (writeIndex - readIndex + nbytes) =
          ringBuffer.slice readIndex (writeIndex - readIndex) ++ buf.take nbytes := by
        rw [Bytes.slice_add, Bytes.slice_overwrite_before (by omega) (by omega),
          Nat.add_sub_cancel' ordered, last]
      rw [same]
      split
      · next wraps =>
        refine ⟨⟨long, read, Nat.zero_lt_of_lt read, small, fun _ => Nat.zero_le _,
          fun no => Bool.noConfusion no⟩, ?_, bound.2.1, rfl⟩
        rw [contents, contents, if_pos rfl, if_neg Bool.false_ne_true]
        rw [Bytes.slice_zero, append_nil,
          show bufferSize - readIndex = writeIndex - readIndex + nbytes by omega, grown]
      · next inside =>
        refine ⟨⟨long, read, Nat.lt_of_not_le inside, small, fun no => Bool.noConfusion no,
          fun _ => by change readIndex ≤ writeIndex + nbytes; omega⟩, ?_, bound.2.1, rfl⟩
        rw [contents, contents, if_neg Bool.false_ne_true, if_neg Bool.false_ne_true]
        rw [show writeIndex + nbytes - readIndex = writeIndex - readIndex + nbytes by omega, grown]

end

end PipeRing

/-! ### Calls -/

inductive Sem where
  | readSem
  | writeSem
  deriving DecidableEq

/-- `struct PipeDev`, without its name, its mutex, its list and its poll queue. A semaphore is its
`semCount`. -/
structure PipeDev extends PipeRing where
  readSem : Nat
  writeSem : Nat
  readerCnt : Nat
  writerCnt : Nat
  ref : Nat
  deriving DecidableEq

def PipeDev.semCount (dev : PipeDev) : Sem → Nat
  | .readSem => dev.readSem
  | .writeSem => dev.writeSem

def PipeDev.setSem (dev : PipeDev) (count : Nat) : Sem → PipeDev
  | .readSem => { dev with readSem := count }
  | .writeSem => { dev with writeSem := count }

/-- `O_RDONLY` or `O_WRONLY`. -/
inductive OpenFlag where
  | rdOnly
  | wrOnly
  deriving DecidableEq

inductive Kind where
  | read
  | write
  | close (openFlag : OpenFlag)
  deriving DecidableEq

/-- What a call of `PipeRead` or `PipeWrite` has moved: its buffer, and `nread` or `nwrite`. -/
structure Transfer where
  id : Nat
  kind : Kind
  buf : Bytes
  done : Nat
  deriving DecidableEq

/-- How far a call is. A read first locks the device to `check` for an empty ring; then every call
locks it for its loop. In the loop a write that finds the ring full posts the read semaphore, and
both drain their own semaphore (`PIPE_RW_WAIT`, of which each turn is a test and a pend); a read
then probes for writers (`PipeWriterIsWaiting`, with the number of its posts). They unlock the
device, pend on their semaphore and lock the device again. At their end they post the other
semaphore. A close has its two posts. -/
inductive Phase where
  | check
  | lock
  | loop
  | full
  | drain
  | drainPend
  | drainBlocked
  | probe (num : Nat)
  | pend
  | blocked
  | last
  | closeWrite
  | closeRead
  | returned
  deriving DecidableEq

structure Call extends Transfer where
  phase : Phase
  deriving DecidableEq

def Kind.own : Kind → Sem
  | .read => .readSem
  | _ => .writeSem

def Kind.other : Kind → Sem
  | .read => .writeSem
  | _ => .readSem

def Phase.holds : Phase → Bool
  | .check | .lock | .pend | .blocked | .returned => false
  | _ => true

/-- The call is in the list of a semaphore. -/
def Call.blockedOn (call : Call) (sem : Sem) : Bool :=
  (call.phase == .blocked || call.phase == .drainBlocked) && call.kind.own == sem

def Phase.resume : Phase → Phase
  | .blocked => .lock
  | _ => .drain

/-! ### Runs -/

/-- The device, the calls, the bytes that have entered and left the ring with their calls, the next
call's number, and the open descriptors of each kind. -/
structure State where
  dev : PipeDev
  calls : List Call
  entered : List (Nat × BitVec 8)
  left : List (Nat × BitVec 8)
  next : Nat
  readFds : Nat
  writeFds : Nat
  deriving DecidableEq

/-- A call does its next step; where it posts, it may wake a call. -/
inductive Action where
  | open_ (openFlag : OpenFlag)
  | start (kind : Kind) (buf : Bytes)
  | run (call : Call) (woken : Option Call)
  deriving DecidableEq

namespace State

def held (state : State) : Bool :=
  state.calls.any fun call => call.phase.holds

def move (state : State) (call : Call) (phase : Phase) : State :=
  { state with calls := { call with phase := phase } :: state.calls.erase call }

/-- `LOS_SemPost`: a call that is blocked on the semaphore is woken, else the count goes up. -/
def losSemPost (state : State) (sem : Sem) : Option Call → Option State
  | some woken =>
      if woken ∈ state.calls ∧ woken.blockedOn sem then some (state.move woken woken.phase.resume)
      else none
  | none =>
      if state.calls.any (·.blockedOn sem) then none
      else some { state with dev := state.dev.setSem (state.dev.semCount sem + 1) sem }

/-- `LOS_SemPend`, for ever: a call takes from the count and goes on, or is blocked. -/
def losSemPend (state : State) (call : Call) (go wait : Phase) : State :=
  if 0 < state.dev.semCount call.kind.own then
    { state.move call go with
      dev := state.dev.setSem (state.dev.semCount call.kind.own - 1) call.kind.own }
  else state.move call wait

/-- `PIPE_RW_POST`, one turn of its loop, or what follows the loop. -/
def pipeRwPost (state : State) (sem : Sem) (woken : Option Call) (after : State) : Option State :=
  if state.dev.semCount sem = 0 then state.losSemPost sem woken else some after

/-- One turn of the loop of `PipeRead`, or its end. -/
def readLoop (state : State) (call : Call) : State :=
  if call.done < call.buf.length then
    let result := state.dev.pipeRingbufferRead (call.buf.length - call.done)
    if result.1 = [] then state.move call .drain
    else
      { state with
        dev := { state.dev with toPipeRing := result.2 }
        calls :=
          { call with
            buf := memcpyS call.buf call.done result.1
            done := call.done + result.1.length } :: state.calls.erase call
        left := state.left ++ result.1.map fun byte => (call.id, byte) }
  else state.move call .last

/-- One turn of the loop of `PipeWrite`, or its end. -/
def writeLoop (state : State) (call : Call) : State :=
  if call.done < call.buf.length then
    let result := state.dev.pipeRingbufferWrite (call.buf.drop call.done)
    if result.1 = 0 then state.move call .full
    else
      { state with
        dev := { state.dev with toPipeRing := result.2 }
        calls := { call with done := call.done + result.1 } :: state.calls.erase call
        entered := state.entered ++
          ((call.buf.drop call.done).take result.1).map fun byte => (call.id, byte) }
  else state.move call .last

/-- What `PipeClose` does to the counts. -/
def closeDev (dev : PipeDev) : OpenFlag → PipeDev
  | .rdOnly => { dev with readerCnt := dev.readerCnt - 1 }
  | .wrOnly => { dev with writerCnt := dev.writerCnt - 1 }

/-- The next step of a call. -/
def run (state : State) (call : Call) (woken : Option Call) : Option State :=
  match call.phase with
  | .check =>
      if state.held then none
      else some (state.move call (if state.dev.isEmpty then .pend else .loop))
  | .lock =>
      if state.held then none
      else
        match call.kind with
        | .close openFlag =>
            some { state.move call .closeWrite with dev := closeDev state.dev openFlag }
        | _ => some (state.move call .loop)
  | .loop =>
      match call.kind with
      | .read => some (state.readLoop call)
      | .write => some (state.writeLoop call)
      | .close _ => none
  | .full => state.pipeRwPost .readSem woken (state.move call .drain)
  | .drain =>
      if state.dev.semCount call.kind.own ≠ 0 then some (state.move call .drainPend)
      else some (state.move call (if call.kind = .read then .probe 0 else .pend))
  | .drainPend => some (state.losSemPend call .drain .drainBlocked)
  | .probe num =>
      if state.dev.writeSem = 0 then
        (state.move call (.probe (num + 1))).losSemPost .writeSem woken
      else some (state.move call (if num ≤ 1 then .returned else .pend))
  | .pend => some (state.losSemPend call .lock .blocked)
  | .last => state.pipeRwPost call.kind.other woken (state.move call .returned)
  | .closeWrite =>
      if state.dev.readerCnt = 0 then
        state.pipeRwPost .writeSem woken (state.move call .closeRead)
      else some (state.move call .closeRead)
  | .closeRead =>
      let after := { state.move call .returned with
        dev := { state.dev with ref := state.dev.ref - 1 } }
      if state.dev.writerCnt = 0 then state.pipeRwPost .readSem woken after else some after
  | .drainBlocked | .blocked | .returned => none

/-- `PipeOpen` of the pipe, whose ring there is already. -/
def open_ (state : State) : OpenFlag → State
  | .rdOnly =>
      { state with
        dev := { state.dev with readerCnt := state.dev.readerCnt + 1, ref := state.dev.ref + 1 }
        readFds := state.readFds + 1 }
  | .wrOnly =>
      { state with
        dev := { state.dev with writerCnt := state.dev.writerCnt + 1, ref := state.dev.ref + 1 }
        writeFds := state.writeFds + 1 }

/-- A call begins. The descriptor of a close is free at once. -/
def start (state : State) (kind : Kind) (buf : Bytes) : State :=
  { state with
    calls := ⟨⟨state.next, kind, buf, 0⟩, if kind = .read then .check else .lock⟩ :: state.calls
    next := state.next + 1
    readFds := if kind = .close .rdOnly then state.readFds - 1 else state.readFds
    writeFds := if kind = .close .wrOnly then state.writeFds - 1 else state.writeFds }

/-- A call needs a descriptor, and a read or write some bytes. -/
def starts (state : State) (buf : Bytes) : Kind → Bool
  | .close .rdOnly => decide (0 < state.readFds)
  | .close .wrOnly => decide (0 < state.writeFds)
  | _ => decide (0 < state.readFds + state.writeFds) && decide (0 < buf.length)

end State

/-- The pipe is there as long as something refers to it. -/
def step (state : State) : Action → Option State
  | .open_ openFlag =>
      if state.dev.ref = 0 ∨ state.held then none else some (state.open_ openFlag)
  | .start kind buf => if state.starts buf kind then some (state.start kind buf) else none
  | .run call woken =>
      if state.dev.ref = 0 then none
      else if call ∈ state.calls then state.run call woken else none

def pipeDevBufSize : Nat := 1024

/-- The pipe is open and empty, and no call is under way. -/
def Initial (state : State) : Prop :=
  ∃ ringBuffer readers writers, ringBuffer.length = pipeDevBufSize ∧ 0 < readers + writers ∧
    state = ⟨⟨⟨ringBuffer, pipeDevBufSize, 0, 0, false⟩, 0, 0, readers, writers, readers + writers⟩,
      [], [], [], 0, readers, writers⟩

def bytesOf (id : Nat) (log : List (Nat × BitVec 8)) : Bytes :=
  (log.filter fun item => item.1 == id).map Prod.snd

/-- What is read is what was written, in the same order, also for each call. -/
structure State.Stream (state : State) : Prop where
  order : state.left.map Prod.snd ++ state.dev.contents = state.entered.map Prod.snd
  written : ∀ call ∈ state.calls, call.kind = .write →
    bytesOf call.id state.entered = call.buf.take call.done
  read : ∀ call ∈ state.calls, call.kind = .read →
    bytesOf call.id state.left = call.buf.take call.done

/-- The buffer of a read is one that `memcpy_s` copies into. -/
def short : Action → Bool
  | .start .read buf => decide (buf.length ≤ securecMemMaxLen)
  | _ => true

/-! ### The bytes of a call -/

theorem bytesOf_append (id : Nat) (first second : List (Nat × BitVec 8)) :
    bytesOf id (first ++ second) = bytesOf id first ++ bytesOf id second := by
  rw [bytesOf, filter_append, map_append, bytesOf, bytesOf]

theorem bytesOf_map_self (id : Nat) (bytes : Bytes) :
    bytesOf id (bytes.map fun byte => (id, byte)) = bytes := by
  rw [bytesOf, filter_eq_self.mpr, map_map]
  · exact map_id bytes
  · intro item member
    obtain ⟨byte, _, rfl⟩ := mem_map.mp member
    exact beq_self_eq_true id

theorem bytesOf_map_other {id other : Nat} (differ : other ≠ id) (bytes : Bytes) :
    bytesOf id (bytes.map fun byte => (other, byte)) = [] := by
  rw [bytesOf, filter_eq_nil_iff.mpr]
  · rfl
  · intro item member
    obtain ⟨byte, _, rfl⟩ := mem_map.mp member
    exact fun same => differ (beq_iff_eq.mp same)

theorem bytesOf_eq_nil {id : Nat} {log : List (Nat × BitVec 8)}
    (fresh : ∀ item ∈ log, item.1 < id) : bytesOf id log = [] := by
  rw [bytesOf, filter_eq_nil_iff.mpr]
  · rfl
  · intro item member same
    exact Nat.ne_of_lt (fresh item member) (beq_iff_eq.mp same)

theorem snd_map_pair (id : Nat) (bytes : Bytes) :
    (bytes.map fun byte => (id, byte)).map Prod.snd = bytes := by
  rw [map_map]
  exact map_id bytes

/-! ### The stream -/

/-- What holds of the ring, of what the calls have moved and of the bytes that have passed. -/
structure Streaming (ring : PipeRing) (transfers : List Transfer)
    (entered left : List (Nat × BitVec 8)) (next : Nat) : Prop where
  valid : ring.Valid
  order : left.map Prod.snd ++ ring.contents = entered.map Prod.snd
  written : ∀ transfer ∈ transfers, transfer.kind = .write →
    bytesOf transfer.id entered = transfer.buf.take transfer.done
  read : ∀ transfer ∈ transfers, transfer.kind = .read →
    bytesOf transfer.id left = transfer.buf.take transfer.done
  within : ∀ transfer ∈ transfers, transfer.done ≤ transfer.buf.length
  short : ∀ transfer ∈ transfers, transfer.kind = .read → transfer.buf.length ≤ securecMemMaxLen
  nodup : (transfers.map Transfer.id).Nodup
  below : ∀ transfer ∈ transfers, transfer.id < next
  enteredBelow : ∀ item ∈ entered, item.1 < next
  leftBelow : ∀ item ∈ left, item.1 < next

namespace Streaming

variable {ring : PipeRing} {transfers rest others : List Transfer} {transfer : Transfer}
  {entered left : List (Nat × BitVec 8)} {next : Nat}

theorem perm (streaming : Streaming ring transfers entered left next)
    (same : others.Perm transfers) : Streaming ring others entered left next where
  valid := streaming.valid
  order := streaming.order
  written other member := streaming.written other (same.subset member)
  read other member := streaming.read other (same.subset member)
  within other member := streaming.within other (same.subset member)
  short other member := streaming.short other (same.subset member)
  nodup := (same.map Transfer.id).nodup_iff.mpr streaming.nodup
  below other member := streaming.below other (same.subset member)
  enteredBelow := streaming.enteredBelow
  leftBelow := streaming.leftBelow

theorem start (streaming : Streaming ring transfers entered left next) (kind : Kind) (buf : Bytes)
    (short : kind = .read → buf.length ≤ securecMemMaxLen) :
    Streaming ring (⟨next, kind, buf, 0⟩ :: transfers) entered left (next + 1) := by
  refine ⟨streaming.valid, streaming.order, ?_, ?_, ?_, ?_, ?_, ?_,
    fun item member => Nat.lt_succ_of_lt (streaming.enteredBelow item member),
    fun item member => Nat.lt_succ_of_lt (streaming.leftBelow item member)⟩
  · exact forall_mem_cons.mpr ⟨fun _ => bytesOf_eq_nil streaming.enteredBelow, streaming.written⟩
  · exact forall_mem_cons.mpr ⟨fun _ => bytesOf_eq_nil streaming.leftBelow, streaming.read⟩
  · exact forall_mem_cons.mpr ⟨Nat.zero_le _, streaming.within⟩
  · exact forall_mem_cons.mpr ⟨short, streaming.short⟩
  · rw [map_cons, nodup_cons]
    refine ⟨fun member => ?_, streaming.nodup⟩
    obtain ⟨other, there, same⟩ := mem_map.mp member
    exact Nat.ne_of_lt (streaming.below other there) same
  · exact forall_mem_cons.mpr ⟨Nat.lt_succ_self next, fun other member =>
      Nat.lt_succ_of_lt (streaming.below other member)⟩

section

variable (streaming : Streaming ring (transfer :: rest) entered left next)
include streaming

theorem differ {other : Transfer} (member : other ∈ rest) : transfer.id ≠ other.id := by
  have nodup := streaming.nodup
  rw [map_cons, nodup_cons] at nodup
  exact fun same => nodup.1 (same ▸ mem_map_of_mem member)

theorem pipeRead (kind : transfer.kind = .read) (more : transfer.done < transfer.buf.length)
    (some_ : (ring.pipeRingbufferRead (transfer.buf.length - transfer.done)).1 ≠ []) :
    Streaming (ring.pipeRingbufferRead (transfer.buf.length - transfer.done)).2 ({ transfer with
          buf := memcpyS transfer.buf transfer.done
            (ring.pipeRingbufferRead (transfer.buf.length - transfer.done)).1
          done := transfer.done +
            (ring.pipeRingbufferRead (transfer.buf.length - transfer.done)).1.length } :: rest)
      entered (left ++ (ring.pipeRingbufferRead (transfer.buf.length - transfer.done)).1.map
        fun byte => (transfer.id, byte)) next := by
  obtain ⟨valid, contents, less, _⟩ :=
    streaming.valid.pipeRingbufferRead (transfer.buf.length - transfer.done)
  generalize (ring.pipeRingbufferRead (transfer.buf.length - transfer.done)) = result
    at valid contents less some_ ⊢
  obtain ⟨bytes, ring'⟩ := result
  dsimp only at valid contents less some_ ⊢
  have within := streaming.within transfer mem_cons_self
  have limit := streaming.short transfer mem_cons_self kind
  have copied : memcpyS transfer.buf transfer.done bytes =
      transfer.buf.overwrite transfer.done bytes :=
    if_pos ⟨less, by omega, length_pos_iff.mpr some_⟩
  have long : (transfer.buf.overwrite transfer.done bytes).length = transfer.buf.length :=
    Bytes.length_overwrite (by omega)
  have taken : (transfer.buf.overwrite transfer.done bytes).take (transfer.done + bytes.length) =
      transfer.buf.take transfer.done ++ bytes := by
    have count : (transfer.buf.take transfer.done ++ bytes).length =
        transfer.done + bytes.length := by
      rw [length_append, length_take_of_le within]
    rw [Bytes.overwrite, take_left' count]
  rw [copied]
  refine ⟨valid, ?_, ?_, ?_, ?_, ?_, streaming.nodup, ?_, streaming.enteredBelow, ?_⟩
  · rw [map_append, snd_map_pair, append_assoc, ← contents]
    exact streaming.order
  · refine forall_mem_cons.mpr ⟨fun write => ?_, fun other member =>
      streaming.written other (mem_cons_of_mem _ member)⟩
    exact Kind.noConfusion (write.symm.trans kind)
  · refine forall_mem_cons.mpr ⟨fun _ => ?_, fun other member read => ?_⟩
    · rw [bytesOf_append, bytesOf_map_self, streaming.read transfer mem_cons_self kind]
      exact taken.symm
    · rw [bytesOf_append, bytesOf_map_other (streaming.differ member), append_nil]
      exact streaming.read other (mem_cons_of_mem _ member) read
  · refine forall_mem_cons.mpr ⟨?_, fun other member =>
      streaming.within other (mem_cons_of_mem _ member)⟩
    change transfer.done + bytes.length ≤ (transfer.buf.overwrite transfer.done bytes).length
    omega
  · refine forall_mem_cons.mpr ⟨fun _ => ?_, fun other member =>
      streaming.short other (mem_cons_of_mem _ member)⟩
    change (transfer.buf.overwrite transfer.done bytes).length ≤ securecMemMaxLen
    omega
  · exact forall_mem_cons.mpr ⟨streaming.below transfer mem_cons_self,
      fun other member => streaming.below other (mem_cons_of_mem _ member)⟩
  · intro item member
    obtain old | new := mem_append.mp member
    · exact streaming.leftBelow item old
    · obtain ⟨byte, _, rfl⟩ := mem_map.mp new
      exact streaming.below transfer mem_cons_self

theorem pipeWrite (kind : transfer.kind = .write) (more : transfer.done < transfer.buf.length) :
    Streaming (ring.pipeRingbufferWrite (transfer.buf.drop transfer.done)).2 ({ transfer with
          done := transfer.done +
            (ring.pipeRingbufferWrite (transfer.buf.drop transfer.done)).1 } :: rest)
      (entered ++ ((transfer.buf.drop transfer.done).take
        (ring.pipeRingbufferWrite (transfer.buf.drop transfer.done)).1).map
          fun byte => (transfer.id, byte)) left next := by
  have count : (transfer.buf.drop transfer.done).length = transfer.buf.length - transfer.done :=
    length_drop
  have positive : 0 < (transfer.buf.drop transfer.done).length := by omega
  obtain ⟨valid, contents, less, _⟩ := streaming.valid.pipeRingbufferWrite positive
  generalize (ring.pipeRingbufferWrite (transfer.buf.drop transfer.done)) = result
    at valid contents less ⊢
  obtain ⟨nbytes, ring'⟩ := result
  refine ⟨valid, ?_, ?_, ?_, ?_, ?_, streaming.nodup, ?_, ?_, streaming.leftBelow⟩
  · rw [contents, ← append_assoc, streaming.order, map_append, snd_map_pair]
  · refine forall_mem_cons.mpr ⟨fun _ => ?_, fun other member write => ?_⟩
    · rw [bytesOf_append, bytesOf_map_self, streaming.written transfer mem_cons_self kind]
      exact (take_add ..).symm
    · rw [bytesOf_append, bytesOf_map_other (streaming.differ member), append_nil]
      exact streaming.written other (mem_cons_of_mem _ member) write
  · refine forall_mem_cons.mpr ⟨fun read => ?_, fun other member =>
      streaming.read other (mem_cons_of_mem _ member)⟩
    exact Kind.noConfusion (read.symm.trans kind)
  · refine forall_mem_cons.mpr ⟨?_, fun other member =>
      streaming.within other (mem_cons_of_mem _ member)⟩
    change transfer.done + nbytes ≤ transfer.buf.length
    omega
  · exact forall_mem_cons.mpr ⟨fun read => Kind.noConfusion (read.symm.trans kind),
      fun other member => streaming.short other (mem_cons_of_mem _ member)⟩
  · exact forall_mem_cons.mpr ⟨streaming.below transfer mem_cons_self,
      fun other member => streaming.below other (mem_cons_of_mem _ member)⟩
  · intro item member
    obtain old | new := mem_append.mp member
    · exact streaming.enteredBelow item old
    · obtain ⟨byte, _, rfl⟩ := mem_map.mp new
      exact streaming.below transfer mem_cons_self

end

end Streaming

/-! ### Steps that move nothing -/

/-- The ring and what the calls have moved are as before. -/
structure Still (state next : State) : Prop where
  ring : next.dev.toPipeRing = state.dev.toPipeRing
  calls : (next.calls.map Call.toTransfer).Perm (state.calls.map Call.toTransfer)
  entered : next.entered = state.entered
  left : next.left = state.left
  next : next.next = state.next

section Steps

variable {state next after : State} {call : Call} {woken : Option Call} {sem : Sem}

theorem toPipeRing_setSem (dev : PipeDev) (count : Nat) (sem : Sem) :
    (dev.setSem count sem).toPipeRing = dev.toPipeRing := by
  cases sem <;> rfl

theorem still_move (member : call ∈ state.calls) (phase : Phase) :
    Still state (state.move call phase) where
  ring := rfl
  calls := ((perm_cons_erase member).map Call.toTransfer).symm
  entered := rfl
  left := rfl
  next := rfl

theorem Still.of_dev (still : Still state next) {dev : PipeDev}
    (ring : dev.toPipeRing = state.dev.toPipeRing) : Still state { next with dev := dev } :=
  ⟨ring, still.calls, still.entered, still.left, still.next⟩

theorem Still.trans (still : Still state next) (further : Still next after) :
    Still state after where
  ring := further.ring.trans still.ring
  calls := further.calls.trans still.calls
  entered := further.entered.trans still.entered
  left := further.left.trans still.left
  next := further.next.trans still.next

theorem still_losSemPost (result : state.losSemPost sem woken = some next) : Still state next := by
  cases woken with
  | some other =>
    obtain ⟨⟨member, _⟩, result⟩ := Option.ite_none_right_eq_some.mp result
    obtain rfl := some_inj.mp result
    exact still_move member _
  | none =>
    obtain ⟨_, result⟩ := ite_none_left_eq_some.mp result
    obtain rfl := some_inj.mp result
    exact ⟨toPipeRing_setSem .., .refl _, rfl, rfl, rfl⟩

theorem still_losSemPend (member : call ∈ state.calls) (go wait : Phase) :
    Still state (state.losSemPend call go wait) := by
  rw [State.losSemPend]
  split
  · exact (still_move member go).of_dev (toPipeRing_setSem ..)
  · exact still_move member wait

theorem still_pipeRwPost (still : Still state after)
    (result : state.pipeRwPost sem woken after = some next) : Still state next := by
  rw [State.pipeRwPost] at result
  split at result
  · exact still_losSemPost result
  · obtain rfl := some_inj.mp result
    exact still

theorem run_cases (member : call ∈ state.calls) (result : state.run call woken = some next) :
    Still state next ∨ call.kind = .read ∧ next = state.readLoop call ∨
      call.kind = .write ∧ next = state.writeLoop call := by
  rw [State.run] at result
  split at result
  · obtain ⟨_, result⟩ := ite_none_left_eq_some.mp result
    obtain rfl := some_inj.mp result
    exact .inl (still_move member _)
  · obtain ⟨_, result⟩ := ite_none_left_eq_some.mp result
    split at result
    · next openFlag _ =>
      obtain rfl := some_inj.mp result
      exact .inl ((still_move member _).of_dev (by cases openFlag <;> rfl))
    · obtain rfl := some_inj.mp result
      exact .inl (still_move member _)
  · split at result
    · next kind => exact .inr (.inl ⟨kind, (some_inj.mp result).symm⟩)
    · next kind => exact .inr (.inr ⟨kind, (some_inj.mp result).symm⟩)
    · exact absurd result (by simp)
  · exact .inl (still_pipeRwPost (still_move member _) result)
  · split at result
    · obtain rfl := some_inj.mp result
      exact .inl (still_move member _)
    · obtain rfl := some_inj.mp result
      exact .inl (still_move member _)
  · obtain rfl := some_inj.mp result
    exact .inl (still_losSemPend member _ _)
  · split at result
    · exact .inl ((still_move member _).trans (still_losSemPost result))
    · obtain rfl := some_inj.mp result
      exact .inl (still_move member _)
  · obtain rfl := some_inj.mp result
    exact .inl (still_losSemPend member _ _)
  · exact .inl (still_pipeRwPost (still_move member _) result)
  · split at result
    · exact .inl (still_pipeRwPost (still_move member _) result)
    · obtain rfl := some_inj.mp result
      exact .inl (still_move member _)
  · have still : Still state { state.move call .returned with
        dev := { state.dev with ref := state.dev.ref - 1 } } :=
      @Still.of_dev _ _ (still_move member .returned)
        { state.dev with ref := state.dev.ref - 1 } rfl
    split at result
    · exact .inl (still_pipeRwPost still result)
    · obtain rfl := some_inj.mp result
      exact .inl still
  · exact absurd result (by simp)
  · exact absurd result (by simp)
  · exact absurd result (by simp)

def State.Streams (state : State) : Prop :=
  Streaming state.dev.toPipeRing (state.calls.map Call.toTransfer) state.entered state.left
    state.next

section

variable (streams : state.Streams)
include streams

theorem State.Streams.still (still : Still state next) :
    next.Streams := by
  rw [State.Streams, still.ring, still.entered, still.left, still.next]
  exact Streaming.perm streams still.calls

theorem State.Streams.front (member : call ∈ state.calls) :
    Streaming state.dev.toPipeRing
      (call.toTransfer :: (state.calls.erase call).map Call.toTransfer) state.entered state.left
      state.next :=
  Streaming.perm streams ((perm_cons_erase member).map Call.toTransfer).symm

theorem State.Streams.readLoop (member : call ∈ state.calls)
    (kind : call.kind = .read) : (state.readLoop call).Streams := by
  rw [State.readLoop]
  split
  · next more =>
    dsimp only
    split
    · exact streams.still (still_move member _)
    · next some_ => exact (streams.front member).pipeRead kind more some_
  · exact streams.still (still_move member _)

theorem State.Streams.writeLoop (member : call ∈ state.calls)
    (kind : call.kind = .write) : (state.writeLoop call).Streams := by
  rw [State.writeLoop]
  split
  · next more =>
    dsimp only
    split
    · exact streams.still (still_move member _)
    · exact (streams.front member).pipeWrite kind more
  · exact streams.still (still_move member _)

theorem State.Streams.step {action : Action}
    (meets : short action = true) (result : Pipe.step state action = some next) : next.Streams := by
  cases action with
  | open_ openFlag =>
    obtain ⟨_, result⟩ := ite_none_left_eq_some.mp result
    obtain rfl := some_inj.mp result
    cases openFlag <;> exact streams
  | start kind buf =>
    obtain ⟨_, result⟩ := Option.ite_none_right_eq_some.mp result
    obtain rfl := some_inj.mp result
    refine Streaming.start streams kind buf fun read => ?_
    rw [read, short, decide_eq_true_eq] at meets
    exact meets
  | run call woken =>
    obtain ⟨_, result⟩ := ite_none_left_eq_some.mp result
    obtain ⟨member, result⟩ := Option.ite_none_right_eq_some.mp result
    obtain still | ⟨kind, rfl⟩ | ⟨kind, rfl⟩ := run_cases member result
    · exact streams.still still
    · exact streams.readLoop member kind
    · exact streams.writeLoop member kind

end

theorem State.Streams.of_initial (initial : Initial state) : state.Streams := by
  obtain ⟨ringBuffer, readers, writers, length, _, rfl⟩ := initial
  have small : pipeDevBufSize ≤ securecMemMaxLen := by decide
  have empty : PipeRing.isEmpty ⟨ringBuffer, pipeDevBufSize, 0, 0, false⟩ = true := rfl
  refine ⟨⟨length, Nat.zero_lt_succ _, Nat.zero_lt_succ _, small, fun no => Bool.noConfusion no,
    fun _ => Nat.le_refl 0⟩, PipeRing.contents_of_isEmpty empty, forall_mem_nil _,
    forall_mem_nil _,
    forall_mem_nil _, forall_mem_nil _, nodup_nil, forall_mem_nil _,
    forall_mem_nil _, forall_mem_nil _⟩

theorem State.Streams.stream (streams : state.Streams) : state.Stream where
  order := Streaming.order streams
  written call member := Streaming.written streams call.toTransfer (mem_map_of_mem member)
  read call member := Streaming.read streams call.toTransfer (mem_map_of_mem member)

theorem State.Streams.of_reachable
    (reached : Reachable Pipe.step (fun _ action => short action = true) Initial state) :
    state.Streams :=
  @Reachable.invariant _ _ _ _ _ state State.Streams (fun _ => State.Streams.of_initial)
    (fun _ _ _ _ streams meets result => streams.step meets result) reached

end Steps

end TowerSafe.Pipe
