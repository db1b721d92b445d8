/-
This file embeds the queue between the tasks of samgr_lite (`LockFreeQueue`): a ring of bytes that
one pusher and one popper share without a lock. Every look at the other's index, every byte that is
copied and every store of an index is a step of its own. The items that were pushed and not yet
popped are the bytes between the two indexes, as long as the size of the ring does not wrap.
-/

import Mathlib.Tactic.SplitIfs
import TowerSafe.Library.Ring
import TowerSafe.Library.Transition

namespace TowerSafe.Lfque

open Library Library.Ring List Option

/-! ### The queue -/

/-- The bytes behind a pointer. -/
abbrev Memory := Nat → UInt8

structure LockFreeQueue where
  write : UInt32
  read : UInt32
  itemSize : UInt32
  totalSize : UInt32
  buffer : Memory

/-- The codes that the calls return. -/
inductive Errno where
  | ecSuccess
  | ecFailure
  | ecBusBusy
  | ecInvalid
  deriving DecidableEq

def securecMemMaxLen : UInt32 := 0x7fffffff

/-- `memcpy_s` of as many bytes as there is room for fails without room, or with too much. -/
def memcpyFails (length : UInt32) : Bool :=
  length = 0 ∨ length > securecMemMaxLen

/-- `LFQUE_Create`, with the memory that `SAMGR_Malloc` returns. The `int` total is that of two's
complement. -/
def lfqueCreate (memory : Option Memory) (size count : Int32) : Option LockFreeQueue :=
  if size ≤ 0 ∨ count ≤ 0 then none
  else
    let total := size * count + 1
    if total ≤ 0 then none
    else memory.map fun buffer =>
      { write := 0, read := 0, itemSize := size.toUInt32, totalSize := total.toUInt32, buffer }

namespace LockFreeQueue

variable (queue : LockFreeQueue)

def isFull : Bool :=
  let nextWrite := queue.write + 1
  let nextWrite := if nextWrite ≥ queue.totalSize then 0 else nextWrite
  nextWrite = queue.read

def isEmpty : Bool :=
  queue.write = queue.read

/-- The `copyLen` of the first `memcpy_s` at an index. -/
def copyLen (index : UInt32) : UInt32 :=
  if queue.totalSize - index < queue.itemSize then queue.totalSize - index else queue.itemSize

/-- The place in the buffer of a byte of the item at an index: those behind the first `copyLen` are
at the front. -/
def place (index copyLen : UInt32) (offset : Nat) : Nat :=
  if offset < copyLen.toNat then index.toNat + offset else offset - copyLen.toNat

/-- The index behind the item at an index. -/
def advance (index : UInt32) : UInt32 :=
  let next := index + queue.itemSize
  if next ≥ queue.totalSize then next - queue.totalSize else next

/-- `LFQUE_Push` before the first byte is copied: the code that it returns, or the element and the
`copyLen` with which it goes on. The second `memcpy_s` has a length between 0 and `itemSize`, so
that only the first one fails. -/
def startPush : Option Memory → Except Errno (Memory × UInt32)
  | none => .error .ecInvalid
  | some element =>
      if queue.isFull then .error .ecBusBusy
      else if memcpyFails (queue.copyLen queue.write) then .error .ecInvalid
      else .ok (element, queue.copyLen queue.write)

/-- `LFQUE_Pop` before the first byte is copied. -/
def startPop : Option Memory → Except Errno (Memory × UInt32)
  | none => .error .ecInvalid
  | some element =>
      if queue.isEmpty then .error .ecFailure
      else if memcpyFails (queue.copyLen queue.read) then .error .ecFailure
      else .ok (element, queue.copyLen queue.read)

def item (element : Memory) : List UInt8 :=
  (List.range queue.itemSize.toNat).map element

end LockFreeQueue

/-! ### The pusher and the popper -/

/-- Where a call is: outside, or between the check and the store of the index, with the bytes that
are left to copy. -/
inductive Caller where
  | idle
  | copying (element : Memory) (copyLen : UInt32) (left : List Nat)

/-- The queue, its pusher and its popper. The last two fields are not in the program: the items of
the calls that returned `EC_SUCCESS`. -/
structure State where
  queue : LockFreeQueue
  pusher : Caller
  popper : Caller
  pushed : List (List UInt8)
  popped : List (List UInt8)

/-- What happens next: a call and its check, the copy of a byte, or the store of the index with
which the call returns. -/
inductive Action where
  | push (element : Option Memory)
  | pushByte (offset : Nat)
  | pushStore
  | pop (element : Option Memory)
  | popByte (offset : Nat)
  | popStore

/-- The bytes are copied in any order, but those of the first `memcpy_s` before the others. -/
def mayCopy (copyLen : UInt32) (left : List Nat) (offset : Nat) : Prop :=
  offset ∈ left ∧ (offset < copyLen.toNat ∨ ∀ other ∈ left, copyLen.toNat ≤ other)

instance (copyLen : UInt32) (left : List Nat) (offset : Nat) :
    Decidable (mayCopy copyLen left offset) := by
  unfold mayCopy
  infer_instance

namespace State

variable (st : State)

/-- A call begins: it fails, or the bytes of the item are left to copy. -/
def caller : Except Errno (Memory × UInt32) → Caller
  | .error _ => .idle
  | .ok (element, copyLen) => .copying element copyLen (List.range st.queue.itemSize.toNat)

/-- `LFQUE_Push` up to its check. -/
def push (element : Option Memory) : Option State :=
  match st.pusher with
  | .idle => some { st with pusher := st.caller (st.queue.startPush element) }
  | .copying _ _ _ => none

/-- A byte of the element is copied into the queue. -/
def pushByte (offset : Nat) : Option State :=
  match st.pusher with
  | .idle => none
  | .copying element copyLen left =>
      if mayCopy copyLen left offset then
        some { st with
          queue := { st.queue with
            buffer := Function.update st.queue.buffer
              (LockFreeQueue.place st.queue.write copyLen offset) (element offset) }
          pusher := .copying element copyLen (left.filter (· ≠ offset)) }
      else none

/-- `LFQUE_Push` stores the index and returns. -/
def pushStore : Option State :=
  match st.pusher with
  | .copying element _ [] =>
      some { st with
        queue := { st.queue with write := st.queue.advance st.queue.write }
        pusher := .idle
        pushed := st.pushed ++ [st.queue.item element] }
  | _ => none

/-- `LFQUE_Pop` up to its check. -/
def pop (element : Option Memory) : Option State :=
  match st.popper with
  | .idle => some { st with popper := st.caller (st.queue.startPop element) }
  | .copying _ _ _ => none

/-- A byte of the queue is copied into the element. -/
def popByte (offset : Nat) : Option State :=
  match st.popper with
  | .idle => none
  | .copying element copyLen left =>
      if mayCopy copyLen left offset then
        some { st with
          popper := .copying
            (Function.update element offset
              (st.queue.buffer (LockFreeQueue.place st.queue.read copyLen offset)))
            copyLen (left.filter (· ≠ offset)) }
      else none

/-- `LFQUE_Pop` stores the index and returns. -/
def popStore : Option State :=
  match st.popper with
  | .copying element _ [] =>
      some { st with
        queue := { st.queue with read := st.queue.advance st.queue.read }
        popper := .idle
        popped := st.popped ++ [st.queue.item element] }
  | _ => none

end State

/-- A step of the pusher or of the popper. -/
def step (st : State) : Action → Option State
  | .push element => st.push element
  | .pushByte offset => st.pushByte offset
  | .pushStore => st.pushStore
  | .pop element => st.pop element
  | .popByte offset => st.popByte offset
  | .popStore => st.popStore

/-- The state in which a queue is new. -/
def State.initial (queue : LockFreeQueue) : State where
  queue := queue
  pusher := .idle
  popper := .idle
  pushed := []
  popped := []

/-- The states that the interleavings of one pusher and one popper reach from a new queue. -/
def Reached (queue : LockFreeQueue) : State → Prop :=
  Reachable step (fun _ _ => True) (· = State.initial queue)

/-- A state is that of a FIFO of at most `count` items: what was popped is what was pushed first,
and with an element a push fails exactly when `count` items are held, a pop exactly when none is. -/
def IsFifo (count : Nat) (st : State) : Prop :=
  ∃ held, st.pushed = st.popped ++ held ∧
    ∀ element, ((st.queue.startPush (some element)).isOk = false ↔ held.length = count) ∧
      ((st.queue.startPop (some element)).isOk = false ↔ held = [])

/-! ### The indexes -/

/-- The sizes of a queue whose total did not wrap. -/
structure Sized (size count : Nat) (queue : LockFreeQueue) : Prop where
  itemSize : queue.itemSize.toNat = size
  totalSize : queue.totalSize.toNat = size * count + 1
  positive : 0 < size
  fits : size * count + 1 < 2 ^ 31

variable {size count : Nat} {queue : LockFreeQueue}

theorem sized_of_lfqueCreate {memory : Option Memory} {size count : Int32}
    (created : lfqueCreate memory size count = some queue)
    (fits : size.toInt * count.toInt + 1 < 2 ^ 31) :
    Sized size.toInt.toNat count.toInt.toNat queue ∧ queue.write = 0 ∧ queue.read = 0 := by
  unfold lfqueCreate at created
  dsimp only at created
  split_ifs at created with refused wrapped
  obtain ⟨buffer, -, rfl⟩ := map_eq_some_iff.mp created
  rw [Int32.le_iff_toInt_le, Int32.le_iff_toInt_le, Int32.toInt_zero] at refused
  have sizePositive : 0 < size.toInt := by omega
  have countPositive : 0 < count.toInt := by omega
  have productPositive : 0 < size.toInt * count.toInt := Int.mul_pos sizePositive countPositive
  have product : (size * count).toInt = size.toInt * count.toInt := by
    rw [Int32.toInt_mul]
    exact Int.bmod_eq_of_le (by omega) (by omega)
  have total : (size * count + 1).toInt = size.toInt * count.toInt + 1 := by
    rw [Int32.toInt_add, product]
    exact Int.bmod_eq_of_le (by simp; omega) (by simp; omega)
  have sizes : size.toInt.toNat * count.toInt.toNat = (size.toInt * count.toInt).toNat :=
    (Int.toNat_mul sizePositive.le countPositive.le).symm
  refine ⟨⟨?_, ?_, by omega, by omega⟩, rfl, rfl⟩
  · exact Int32.toNat_toUInt32_of_le (Int32.le_iff_toInt_le.mpr sizePositive.le)
  · have nonnegative : 0 ≤ size * count + 1 := Int32.le_iff_toInt_le.mpr (by rw [total]; simp; omega)
    refine (Int32.toNat_toUInt32_of_le nonnegative).trans ?_
    rw [Int32.toNatClampNeg]
    omega

theorem copyLen_eq (sized : Sized size count queue) {index : UInt32} {byte : Nat}
    (isAt : index.toNat = byte % (size * count + 1)) :
    (queue.copyLen index).toNat = min (size * count + 1 - byte % (size * count + 1)) size := by
  have below : byte % (size * count + 1) < size * count + 1 := Nat.mod_lt _ (Nat.succ_pos _)
  have room : (queue.totalSize - index).toNat = size * count + 1 - byte % (size * count + 1) := by
    rw [UInt32.toNat_sub_of_le _ _ (by rw [UInt32.le_iff_toNat_le, sized.totalSize]; omega),
      isAt, sized.totalSize]
  unfold LockFreeQueue.copyLen
  split
  · next less =>
    rw [UInt32.lt_iff_toNat_lt, room, sized.itemSize] at less
    rw [room, Nat.min_eq_left less.le]
  · next enough =>
    rw [UInt32.lt_iff_toNat_lt, room, sized.itemSize] at enough
    rw [sized.itemSize, Nat.min_eq_right (Nat.le_of_not_lt enough)]

theorem place_eq {index copyLen : UInt32} {byte offset : Nat}
    (isAt : index.toNat = byte % (size * count + 1))
    (isLength : copyLen.toNat = min (size * count + 1 - byte % (size * count + 1)) size)
    (inside : offset < size) (small : size ≤ size * count + 1) :
    LockFreeQueue.place index copyLen offset = (byte + offset) % (size * count + 1) := by
  have below : byte % (size * count + 1) < size * count + 1 := Nat.mod_lt _ (Nat.succ_pos _)
  rw [← Nat.mod_add_mod, LockFreeQueue.place, isAt, isLength]
  generalize byte % (size * count + 1) = low at below ⊢
  split
  · next first => rw [Nat.mod_eq_of_lt (by omega)]
  · next second =>
    rw [Nat.mod_eq_sub_mod (by omega), Nat.mod_eq_of_lt (by omega)]
    omega

section

variable (sized : Sized size count queue)
include sized

theorem advance_eq {index : UInt32} {byte : Nat}
    (isAt : index.toNat = byte % (size * count + 1)) (small : size ≤ size * count) :
    (queue.advance index).toNat = (byte + size) % (size * count + 1) := by
  have below : byte % (size * count + 1) < size * count + 1 := Nat.mod_lt _ (Nat.succ_pos _)
  have fits := sized.fits
  have sum : (index + queue.itemSize).toNat = byte % (size * count + 1) + size := by
    rw [UInt32.toNat_add, isAt, sized.itemSize, Nat.mod_eq_of_lt (by omega)]
  rw [← Nat.mod_add_mod]
  generalize byte % (size * count + 1) = low at below sum ⊢
  unfold LockFreeQueue.advance
  dsimp only
  split
  · next wraps =>
    rw [ge_iff_le, UInt32.le_iff_toNat_le, sum, sized.totalSize] at wraps
    rw [UInt32.toNat_sub_of_le _ _ (by rw [UInt32.le_iff_toNat_le, sum, sized.totalSize]; exact wraps),
      sum, sized.totalSize, Nat.mod_eq_sub_mod wraps, Nat.mod_eq_of_lt (by omega)]
  · next inside =>
    rw [ge_iff_le, UInt32.le_iff_toNat_le, sized.totalSize] at inside
    rw [sum, Nat.mod_eq_of_lt (by omega)]

/-- With the indexes so many items apart, the queue is full exactly when these are all. -/
theorem isFull_iff {start held : Nat}
    (write : queue.write.toNat = (start + size * held) % (size * count + 1))
    (read : queue.read.toNat = start % (size * count + 1)) (room : held ≤ count) :
    queue.isFull = true ↔ held = count := by
  have below : (start + size * held) % (size * count + 1) < size * count + 1 :=
    Nat.mod_lt _ (Nat.succ_pos _)
  have fits := sized.fits
  have sum : (queue.write + 1).toNat = (start + size * held) % (size * count + 1) + 1 := by
    rw [UInt32.toNat_add, write]
    exact Nat.mod_eq_of_lt (by simp; omega)
  have nextWrite : (if queue.write + 1 ≥ queue.totalSize then 0 else queue.write + 1).toNat =
      (start + (size * held + 1)) % (size * count + 1) := by
    rw [← Nat.add_assoc, ← Nat.mod_add_mod]
    split
    · next wraps =>
      rw [ge_iff_le, UInt32.le_iff_toNat_le, sum, sized.totalSize] at wraps
      have last : (start + size * held) % (size * count + 1) + 1 = size * count + 1 :=
        Nat.le_antisymm below wraps
      rw [last, Nat.mod_self]
      rfl
    · next inside =>
      rw [ge_iff_le, UInt32.le_iff_toNat_le, sum, sized.totalSize] at inside
      rw [sum, Nat.mod_eq_of_lt (Nat.lt_of_not_le inside)]
  have full : queue.isFull = true ↔
      (start + (size * held + 1)) % (size * count + 1) = start % (size * count + 1) := by
    rw [← nextWrite, ← read, UInt32.toNat_inj]
    exact decide_eq_true_iff
  rw [full]
  constructor
  · intro same
    by_contra other
    have less : size * held < size * count :=
      Nat.mul_lt_mul_of_pos_left (Nat.lt_of_le_of_ne room other) sized.positive
    have apart := @slot_injective _ start _ 0 (Nat.succ_lt_succ less) (Nat.succ_pos _) same
    exact absurd apart (Nat.succ_ne_zero _)
  · rintro rfl
    exact Nat.add_mod_right _ _

/-- With the indexes so many items apart, the queue is empty exactly when these are none. -/
theorem isEmpty_iff {start held : Nat}
    (write : queue.write.toNat = (start + size * held) % (size * count + 1))
    (read : queue.read.toNat = start % (size * count + 1)) (room : held ≤ count) :
    queue.isEmpty = true ↔ held = 0 := by
  have bounded : size * held ≤ size * count := Nat.mul_le_mul_left size room
  have empty : queue.isEmpty = true ↔
      (start + size * held) % (size * count + 1) = start % (size * count + 1) := by
    rw [← write, ← read, UInt32.toNat_inj]
    exact decide_eq_true_iff
  rw [empty]
  constructor
  · intro same
    have none : size * held = 0 :=
      @slot_injective _ start _ 0 (Nat.lt_succ_of_le bounded) (Nat.succ_pos _) same
    exact (Nat.mul_eq_zero.mp none).resolve_left sized.positive.ne'
  · rintro rfl
    rw [Nat.mul_zero, Nat.add_zero]

theorem memcpyFails_copyLen {index : UInt32} {byte : Nat}
    (isAt : index.toNat = byte % (size * count + 1)) (small : size ≤ size * count) :
    memcpyFails (queue.copyLen index) = false := by
  have below : byte % (size * count + 1) < size * count + 1 := Nat.mod_lt _ (Nat.succ_pos _)
  have length := copyLen_eq sized isAt
  have fits := sized.fits
  have positive := sized.positive
  refine decide_eq_false (not_or.mpr ⟨fun none => ?_, fun more => ?_⟩)
  · rw [none, UInt32.toNat_zero] at length
    omega
  · have most : (2 ^ 31 - 1 : Nat) < (queue.copyLen index).toNat := UInt32.lt_iff_toNat_lt.mp more
    omega

end

/-! ### The refinement -/

/-- A caller in the midst of the item that begins with a byte of the ring: those of its bytes that
are not left agree with the element. -/
structure Copying (size total : Nat) (buffer : Memory) (byte : Nat) (element : Memory)
    (copyLen : UInt32) (left : List Nat) : Prop where
  copyLen : copyLen.toNat = min (total - byte % total) size
  inside : ∀ offset ∈ left, offset < size
  copied : ∀ offset, offset < size → offset ∉ left →
    buffer ((byte + offset) % total) = element offset

/-- The queue holds these items: they are the bytes between the indexes, and the callers copy the
item behind them and the first one. -/
structure Holds (size count : Nat) (st : State) (held : List (List UInt8)) : Prop where
  sized : Sized size count st.queue
  pushed : st.pushed = st.popped ++ held
  room : held.length ≤ count
  lengths : ∀ item ∈ held, item.length = size
  read : st.queue.read.toNat = size * st.popped.length % (size * count + 1)
  write : st.queue.write.toNat =
    (size * st.popped.length + size * held.length) % (size * count + 1)
  bytes : contents (size * count + 1) st.queue.buffer (size * st.popped.length)
    (size * held.length) = held.flatten
  pusher : ∀ element copyLen left, st.pusher = .copying element copyLen left →
    held.length < count ∧ Copying size (size * count + 1) st.queue.buffer
      (size * st.popped.length + size * held.length) element copyLen left
  popper : ∀ element copyLen left, st.popper = .copying element copyLen left →
    held ≠ [] ∧ Copying size (size * count + 1) st.queue.buffer
      (size * st.popped.length) element copyLen left

variable {st next : State} {held : List (List UInt8)}

theorem copying_start (sized : Sized size count queue) {index : UInt32} {byte : Nat}
    (isAt : index.toNat = byte % (size * count + 1)) (buffer element : Memory) :
    Copying size (size * count + 1) buffer byte element (queue.copyLen index)
      (List.range queue.itemSize.toNat) where
  copyLen := copyLen_eq sized isAt
  inside := fun _ member => sized.itemSize ▸ mem_range.mp member
  copied := fun _ below notLeft =>
    absurd (mem_range.mpr (sized.itemSize.symm ▸ below)) notLeft

namespace Copying

variable {total byte offset place : Nat} {buffer element : Memory} {copyLen index : UInt32}
  {left : List Nat}

theorem of_notMem_filter {other : Nat} (apart : other ≠ offset)
    (notLeft : other ∉ left.filter (· ≠ offset)) : other ∉ left := fun member =>
  notLeft (mem_filter.mpr ⟨member, decide_eq_true apart⟩)

section

variable (copying : Copying size total buffer byte element copyLen left)
include copying

theorem write
    (member : offset ∈ left) (small : size ≤ total) :
    Copying size total (Function.update buffer ((byte + offset) % total) (element offset)) byte
      element copyLen (left.filter (· ≠ offset)) where
  copyLen := copying.copyLen
  inside := fun other member => copying.inside other (mem_of_mem_filter member)
  copied := fun other below notLeft => by
    by_cases same : other = offset
    · rw [same, Function.update_self]
    have apart : (byte + other) % total ≠ (byte + offset) % total := fun slot =>
      same (slot_injective (Nat.lt_of_lt_of_le below small)
        (Nat.lt_of_lt_of_le (copying.inside offset member) small) slot)
    rw [Function.update_of_ne apart]
    exact copying.copied other below (of_notMem_filter same notLeft)

theorem read :
    Copying size total buffer byte
      (Function.update element offset (buffer ((byte + offset) % total))) copyLen
      (left.filter (· ≠ offset)) where
  copyLen := copying.copyLen
  inside := fun other member => copying.inside other (mem_of_mem_filter member)
  copied := fun other below notLeft => by
    by_cases same : other = offset
    · rw [same, Function.update_self]
    · rw [Function.update_of_ne same]
      exact copying.copied other below (of_notMem_filter same notLeft)

theorem update_beyond
    (beyond : size ≤ place) (inside : place < total) (value : UInt8) :
    Copying size total (Function.update buffer ((byte + place) % total) value) byte element
      copyLen left where
  copyLen := copying.copyLen
  inside := copying.inside
  copied := fun offset below notLeft => by
    have apart : (byte + offset) % total ≠ (byte + place) % total := fun slot =>
      Nat.ne_of_lt (Nat.lt_of_lt_of_le below beyond)
        (slot_injective (Nat.lt_trans (Nat.lt_of_lt_of_le below beyond) inside) inside slot)
    rw [Function.update_of_ne apart]
    exact copying.copied offset below notLeft

end

theorem contents_eq (copying : Copying size total buffer byte element copyLen []) :
    contents total buffer byte size = (List.range size).map element :=
  map_congr_left fun offset member =>
    copying.copied offset (mem_range.mp member) not_mem_nil

end Copying

namespace Holds

section

variable (holds : Holds size count st held)
include holds

theorem startPush (element : Memory) : st.queue.startPush (some element) =
      if held.length = count then .error .ecBusBusy
      else .ok (element, st.queue.copyLen st.queue.write) := by
  have full := isFull_iff holds.sized holds.write holds.read holds.room
  rw [LockFreeQueue.startPush]
  by_cases all : held.length = count
  · rw [if_pos (full.mpr all), if_pos all]
  have small : size ≤ size * count :=
    Nat.le_mul_of_pos_right size (Nat.zero_lt_of_lt (Nat.lt_of_le_of_ne holds.room all))
  rw [if_neg (mt full.mp all), if_neg all,
    if_neg (Bool.not_eq_true _ ▸ memcpyFails_copyLen holds.sized holds.write small)]

theorem startPop (element : Memory) : st.queue.startPop (some element) =
      if held = [] then .error .ecFailure else .ok (element, st.queue.copyLen st.queue.read) := by
  have empty := isEmpty_iff holds.sized holds.write holds.read holds.room
  rw [length_eq_zero_iff] at empty
  rw [LockFreeQueue.startPop]
  by_cases none : held = []
  · rw [if_pos (empty.mpr none), if_pos none]
  have small : size ≤ size * count := Nat.le_mul_of_pos_right size
    (Nat.lt_of_lt_of_le (length_pos_iff.mpr none) holds.room)
  rw [if_neg (mt empty.mp none), if_neg none,
    if_neg (Bool.not_eq_true _ ▸ memcpyFails_copyLen holds.sized holds.read small)]

theorem isFifo : IsFifo count st := by
  refine ⟨held, holds.pushed, fun element => ⟨?_, ?_⟩⟩
  · rw [holds.startPush element]
    split
    · next all => exact iff_of_true rfl all
    · next less => exact iff_of_false nofun less
  · rw [holds.startPop element]
    split
    · next none => exact iff_of_true rfl none
    · next some => exact iff_of_false nofun some

theorem push {element : Option Memory}
    (result : st.push element = some next) : Holds size count next held := by
  unfold State.push at result
  split at result
  · obtain rfl := some.inj result
    refine { holds with pusher := fun copied copyLen left isCopying => ?_ }
    cases element with
    | none => exact absurd isCopying Caller.noConfusion
    | some element =>
      rw [holds.startPush element] at isCopying
      split at isCopying
      · exact absurd isCopying Caller.noConfusion
      · next less =>
        obtain ⟨rfl, rfl, rfl⟩ := Caller.copying.inj isCopying
        exact ⟨Nat.lt_of_le_of_ne holds.room less, copying_start holds.sized holds.write _ _⟩
  · exact nomatch result

theorem pushByte {offset : Nat}
    (result : st.pushByte offset = some next) : Holds size count next held := by
  unfold State.pushByte at result
  split at result
  · exact nomatch result
  next element copyLen left isCopying =>
  split at result
  · next may =>
    obtain rfl := some.inj result
    obtain ⟨less, copying⟩ := holds.pusher element copyLen left isCopying
    have inside : offset < size := copying.inside offset may.1
    have next : size * held.length + size ≤ size * count :=
      Nat.mul_succ size _ ▸ Nat.mul_le_mul_left size less
    have isPlace : LockFreeQueue.place st.queue.write copyLen offset =
        (size * st.popped.length + (size * held.length + offset)) % (size * count + 1) := by
      rw [place_eq holds.write copying.copyLen inside (by omega), Nat.add_assoc]
    refine { holds with
      sized := ⟨holds.sized.itemSize, holds.sized.totalSize, holds.sized.positive, holds.sized.fits⟩
      bytes := ?_, pusher := ?_, popper := ?_ }
    · rw [isPlace, contents_update_beyond (Nat.le_add_right _ _) (by omega)]
      exact holds.bytes
    · rintro copied length rest isNow
      obtain ⟨rfl, rfl, rfl⟩ := Caller.copying.inj isNow
      rw [isPlace, ← Nat.add_assoc]
      exact ⟨less, copying.write may.1 (by omega)⟩
    · rintro copied length rest isPopping
      obtain ⟨some, popping⟩ := holds.popper copied length rest isPopping
      have first : size ≤ size * held.length :=
        Nat.le_mul_of_pos_right size (length_pos_iff.mpr some)
      rw [isPlace]
      exact ⟨some, popping.update_beyond (by omega) (by omega) _⟩
  · exact nomatch result

theorem pushStore (result : st.pushStore = some next) : ∃ held, Holds size count next held := by
  unfold State.pushStore at result
  split at result
  · next element copyLen isCopying =>
    obtain rfl := some.inj result
    obtain ⟨less, copying⟩ := holds.pusher element copyLen [] isCopying
    have small : size ≤ size * count := Nat.le_mul_of_pos_right size (Nat.zero_lt_of_lt less)
    have isItem : st.queue.item element = (List.range size).map element := by
      rw [LockFreeQueue.item, holds.sized.itemSize]
    refine ⟨held ++ [st.queue.item element], ⟨holds.sized.itemSize, holds.sized.totalSize,
      holds.sized.positive, holds.sized.fits⟩, ?_, ?_, ?_, holds.read, ?_, ?_, ?_, ?_⟩
    · rw [holds.pushed, append_assoc]
    · rw [length_append]
      exact less
    · intro item member
      rcases mem_append.mp member with old | new
      · exact holds.lengths item old
      · rw [mem_singleton.mp new, isItem, length_map, length_range]
    · rw [length_append, length_singleton, Nat.mul_succ, ← Nat.add_assoc]
      exact advance_eq holds.sized holds.write small
    · rw [length_append, length_singleton, Nat.mul_succ, contents_add,
        flatten_append, flatten_singleton, isItem]
      exact congrArg₂ _ holds.bytes copying.contents_eq
    · rintro copied length rest isNow
      exact nomatch isNow
    · rintro copied length rest isPopping
      obtain ⟨some, popping⟩ := holds.popper copied length rest isPopping
      exact ⟨append_ne_nil_of_left_ne_nil some _, popping⟩
  · exact nomatch result

theorem pop {element : Option Memory}
    (result : st.pop element = some next) : Holds size count next held := by
  unfold State.pop at result
  split at result
  · obtain rfl := some.inj result
    refine { holds with popper := fun copied copyLen left isCopying => ?_ }
    cases element with
    | none => exact absurd isCopying Caller.noConfusion
    | some element =>
      rw [holds.startPop element] at isCopying
      split at isCopying
      · exact absurd isCopying Caller.noConfusion
      · next some =>
        obtain ⟨rfl, rfl, rfl⟩ := Caller.copying.inj isCopying
        exact ⟨some, copying_start holds.sized holds.read _ _⟩
  · exact nomatch result

theorem popByte {offset : Nat}
    (result : st.popByte offset = some next) : Holds size count next held := by
  unfold State.popByte at result
  split at result
  · exact nomatch result
  next element copyLen left isCopying =>
  split at result
  · next may =>
    obtain rfl := some.inj result
    obtain ⟨some, copying⟩ := holds.popper element copyLen left isCopying
    have inside : offset < size := copying.inside offset may.1
    have small : size ≤ size * count := Nat.le_mul_of_pos_right size
      (Nat.lt_of_lt_of_le (length_pos_iff.mpr some) holds.room)
    refine { holds with popper := ?_ }
    rintro copied length rest isNow
    obtain ⟨rfl, rfl, rfl⟩ := Caller.copying.inj isNow
    rw [place_eq holds.read copying.copyLen inside (by omega)]
    exact ⟨some, copying.read⟩
  · exact nomatch result

theorem popStore (result : st.popStore = some next) : ∃ held, Holds size count next held := by
  unfold State.popStore at result
  split at result
  · next element copyLen isCopying =>
    obtain rfl := some.inj result
    obtain ⟨some, copying⟩ := holds.popper element copyLen [] isCopying
    cases held with
    | nil => exact absurd rfl some
    | cons first rest =>
      have small : size ≤ size * count := Nat.le_mul_of_pos_right size
        (Nat.lt_of_lt_of_le (Nat.succ_pos rest.length) holds.room)
      have isItem : st.queue.item element = (List.range size).map element := by
        rw [LockFreeQueue.item, holds.sized.itemSize]
      have behind : size * (rest.length + 1) = size + size * rest.length := by
        rw [Nat.mul_succ, Nat.add_comm]
      have bytes := holds.bytes
      rw [length_cons, behind, contents_add] at bytes
      obtain ⟨isFirst, isRest⟩ := append_inj bytes
        (length_contents.trans (holds.lengths first mem_cons_self).symm)
      have item : st.queue.item element = first := by
        rw [isItem, ← copying.contents_eq, isFirst]
      have write := holds.write
      rw [length_cons, behind, ← Nat.add_assoc] at write
      refine ⟨rest, ⟨holds.sized.itemSize, holds.sized.totalSize, holds.sized.positive,
        holds.sized.fits⟩, ?_, Nat.le_of_succ_le holds.room,
        fun item member => holds.lengths item (mem_cons_of_mem first member), ?_, ?_, ?_,
        ?_, ?_⟩
      · rw [holds.pushed, item, append_assoc, singleton_append]
      · rw [length_append]
        exact advance_eq holds.sized holds.read small
      · rw [length_append]
        exact write
      · rw [length_append]
        exact isRest
      · rintro copied length left isPushing
        obtain ⟨less, pushing⟩ := holds.pusher copied length left isPushing
        rw [length_cons, behind, ← Nat.add_assoc] at pushing
        rw [length_append]
        exact ⟨Nat.lt_of_succ_lt less, pushing⟩
      · rintro copied length left isNow
        exact nomatch isNow
  · exact nomatch result

end

end Holds

/-! ### The interleavings -/

theorem holds_of_step {action : Action} (holds : Holds size count st held)
    (result : step st action = some next) : ∃ held, Holds size count next held := by
  cases action with
  | push element => exact ⟨held, holds.push result⟩
  | pushByte offset => exact ⟨held, holds.pushByte result⟩
  | pushStore => exact holds.pushStore result
  | pop element => exact ⟨held, holds.pop result⟩
  | popByte offset => exact ⟨held, holds.popByte result⟩
  | popStore => exact holds.popStore result

theorem holds_initial (sized : Sized size count queue) (write : queue.write = 0)
    (read : queue.read = 0) : Holds size count (State.initial queue) [] where
  sized := sized
  pushed := rfl
  room := Nat.zero_le count
  lengths := fun _ member => nomatch member
  read := (congrArg UInt32.toNat read).trans (Nat.zero_mod _).symm
  write := (congrArg UInt32.toNat write).trans (Nat.zero_mod _).symm
  bytes := rfl
  pusher := fun _ _ _ isCopying => nomatch isCopying
  popper := fun _ _ _ isCopying => nomatch isCopying

/-- A queue whose size in bytes and one is an `int` is a FIFO of `count` items in every state that
an interleaving of one pusher and one popper reaches. -/
theorem reached_isFifo (memory : Option Memory) (size count : Int32) (queue : LockFreeQueue)
    (st : State) (created : lfqueCreate memory size count = some queue)
    (fits : size.toInt * count.toInt + 1 < 2 ^ 31) (reached : Reached queue st) :
    IsFifo count.toInt.toNat st := by
  obtain ⟨sized, write, read⟩ := sized_of_lfqueCreate created fits
  have base : ∀ first, first = State.initial queue →
      ∃ held, Holds size.toInt.toNat count.toInt.toNat first held := by
    rintro first rfl
    exact ⟨[], holds_initial sized write read⟩
  obtain ⟨held, holds⟩ := reached.invariant base
    fun _ _ _ _ ⟨_, holds⟩ _ result => holds_of_step holds result
  exact holds.isFifo

/-- A queue of one item of two bytes. -/
def sampleQueue : LockFreeQueue where
  write := 0
  read := 0
  itemSize := 2
  totalSize := 3
  buffer := fun _ => 0

/-- The first item is pushed and its last byte copied first, then it is popped, and a second item
that wraps is pushed. -/
def sampleActions : List Action :=
  [.push (some fun _ => 7), .pushByte 1, .pushByte 0, .pushStore, .pop (some fun _ => 0),
    .popByte 0, .popByte 1, .popStore, .push (some fun _ => 8), .pushByte 0, .pushByte 1,
    .pushStore]

theorem reached_isFifo_sample :
    ∃ st, Reached sampleQueue st ∧ st.pushed = [[7, 7], [8, 8]] ∧ st.popped = [[7, 7]] ∧
      IsFifo (1 : Int32).toInt.toNat st := by
  have ran : ∃ st, execute step (fun _ _ => true) (.initial sampleQueue) sampleActions = some st ∧
      st.pushed = [[7, 7], [8, 8]] ∧ st.popped = [[7, 7]] := ⟨_, rfl, rfl, rfl⟩
  obtain ⟨st, result, pushed, popped⟩ := ran
  have reached : Reached sampleQueue st :=
    Reachable.of_execute (fun _ _ _ => trivial) sampleActions (.start rfl) result
  exact ⟨st, reached, pushed, popped,
    reached_isFifo (some fun _ => 0) 2 1 sampleQueue st rfl (by decide) reached⟩

/-- Four items of 2^30 bytes: the total wraps to 1, the queue is accepted, and it refuses the first
item. -/
theorem wrapped_total : ∃ queue, lfqueCreate (some fun _ => 0) 0x40000000 4 = some queue ∧
      Reached queue (.initial queue) ∧ ¬ IsFifo (4 : Int32).toInt.toNat (.initial queue) := by
  refine ⟨_, rfl, .start rfl, fun ⟨held, pushed, checks⟩ => ?_⟩
  have empty : [] = held := pushed
  have full := (checks fun _ => 0).1.mp rfl
  rw [← empty] at full
  exact absurd full (by decide)

end TowerSafe.Lfque
