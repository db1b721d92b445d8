/-
This file embeds the shadow memory of `los_lms.c`: a pool that is registered gives up its end, where
every four bytes of the rest have a cell of two bits. A marking of an interval changes the cells of
what it meets, and no others.
-/

import TowerSafe.Library.Cells
import TowerSafe.Library.ByteMemory
import TowerSafe.Library.Transition
import Mathlib.Data.List.Induction
import Mathlib.Logic.Function.Basic

namespace TowerSafe.Lms

open Library BitVec

/-- The bytes of the address space. A pool lies in it and does not wrap around, so that addresses
are numbers. -/
abbrev Memory := Nat → BitVec 8

/-! ### Pools -/

/-- `LmsMemListNode`. The list is one of places in the array. -/
structure LmsMemListNode where
  used : Bool
  poolAddr : Nat
  poolSize : BitVec 32
  shadowStart : Nat
  shadowSize : BitVec 32
  deriving DecidableEq

/-- The globals, and the memory. -/
structure State where
  memory : Memory
  checkPoolArray : Nat → LmsMemListNode
  checkPoolList : List Nat

def osMemAlignBack (value align : BitVec 32) : BitVec 32 := value &&& ~~~(align - 1)

def poolAddrAlignsize : BitVec 32 := 64

def lmsPoolResize (size : BitVec 32) : BitVec 32 := size / (16 + 1) * 16

def osLmsPoolResize (size : BitVec 32) : BitVec 32 :=
  osMemAlignBack (lmsPoolResize size) poolAddrAlignsize

def memset (memory : Memory) (start : Nat) (value : BitVec 8) (count : Nat) : Memory :=
  fun address => if start ≤ address ∧ address < start + count then value else memory address

namespace State

variable (state : State)

def osLmsGetPoolNode (pool : Nat) : Option Nat :=
  state.checkPoolList.find? fun place => (state.checkPoolArray place).poolAddr == pool

def osLmsGetPoolNodeFromAddr (addr : Nat) : Option Nat :=
  state.checkPoolList.find? fun place =>
    decide ((state.checkPoolArray place).poolAddr ≤ addr ∧
      addr < (state.checkPoolArray place).poolAddr + (state.checkPoolArray place).poolSize.toNat)

/-- `OsLmsCheckPoolCreate`, in an array of so many nodes: a node that was not used. -/
def osLmsCheckPoolCreate (maxRecordPoolNum : Nat) : Option Nat :=
  (List.range maxRecordPoolNum).find? fun place => !(state.checkPoolArray place).used

/-- A node is given back and leaves the list. -/
def release (place : Nat) : State where
  memory := state.memory
  checkPoolArray := Function.update state.checkPoolArray place
    { state.checkPoolArray place with used := false }
  checkPoolList := state.checkPoolList.erase place

/-- The node of a pool, as `LOS_LmsCheckPoolAdd` fills it in. -/
def poolNode (pool : Nat) (size : BitVec 32) : LmsMemListNode where
  used := true
  poolAddr := pool
  poolSize := osLmsPoolResize size
  shadowStart := pool + (osLmsPoolResize size).toNat
  shadowSize := .ofNat 32 (pool + size.toNat - (pool + (osLmsPoolResize size).toNat))

/-- A node that is not used is filled in, and the shadow is that of freed memory. -/
def register (maxRecordPoolNum pool : Nat) (size : BitVec 32) : State × BitVec 32 :=
  match state.osLmsCheckPoolCreate maxRecordPoolNum with
  | none => (state, 0)
  | some place =>
    let node := poolNode pool size
    (⟨memset state.memory node.shadowStart 0xFF node.shadowSize.toNat,
      Function.update state.checkPoolArray place node, place :: state.checkPoolList⟩,
      osLmsPoolResize size)

/-- `LOS_LmsCheckPoolAdd`: the size that is left for the pool. -/
def losLmsCheckPoolAdd (maxRecordPoolNum pool : Nat) (size : BitVec 32) : State × BitVec 32 :=
  if pool = 0 then (state, 0)
  else
    match state.osLmsGetPoolNodeFromAddr pool with
    | none => state.register maxRecordPoolNum pool size
    | some place =>
      if (state.checkPoolArray place).poolAddr ≠ pool then (state, size)
      else (state.release place).register maxRecordPoolNum pool size

def losLmsCheckPoolDel (pool : Nat) : State :=
  if pool = 0 then state
  else
    match state.osLmsGetPoolNode pool with
    | none => state
    | some place => state.release place

end State

/-! ### Marks -/

/-- `OsLmsMem2Shadow`: the address of a byte of the shadow, and the offset of a cell in it. -/
def osLmsMem2Shadow (node : LmsMemListNode) (memAddr : Nat) : Option (Nat × Nat) :=
  if memAddr < node.poolAddr ∨ node.poolAddr + node.poolSize.toNat ≤ memAddr then none
  else
    let memOffset := memAddr - node.poolAddr
    some (node.shadowStart + memOffset / 16, memOffset % 16 / 4 * 2)

/-- The bits of a byte under a mask are those of a value. -/
def setMasked (memory : Memory) (address : Nat) (value mask : BitVec 8) : Memory :=
  Function.update memory address (memory address &&& ~~~mask ||| value &&& mask)

/-- The first byte of several, when its first cells are not marked: what is left to be marked begins
behind it. -/
def markFirst (memory : Memory) (shadowStart startOffset : Nat) (value : BitVec 8) :
    Memory × Nat :=
  if startOffset > 0 then
    (setMasked memory shadowStart value (0xFF#8 <<< startOffset), shadowStart + 1)
  else (memory, shadowStart)

/-- The last byte of several, when its last cells are not marked. -/
def markLast (memory : Memory) (shadowEnd endOffset : Nat) (value : BitVec 8) : Memory × Nat :=
  if endOffset < (4 - 1) * 2 then
    (setMasked memory shadowEnd value (0xFF#8 &&& ~~~(0xFF#8 <<< (endOffset + 2))), shadowEnd - 1)
  else (memory, shadowEnd)

def osLmsSetShadowValue (memory : Memory) (node : LmsMemListNode) (startAddr endAddr : Nat)
    (value : BitVec 8) : Memory :=
  match osLmsMem2Shadow node startAddr, osLmsMem2Shadow node (endAddr - 1) with
  | some (shadowStart, startOffset), some (shadowEnd, endOffset) =>
    if shadowStart = shadowEnd then
      setMasked memory shadowStart value
        (0xFF#8 <<< startOffset &&& ~~~(0xFF#8 <<< (endOffset + 2)))
    else
      let (memory, shadowStart) := markFirst memory shadowStart startOffset value
      let (memory, shadowEnd) := markLast memory shadowEnd endOffset value
      if shadowEnd + 1 > shadowStart then
        memset memory shadowStart (value &&& 0xFF) (shadowEnd + 1 - shadowStart)
      else memory
  | _, _ => memory

/-- `OsLmsGetShadowValue`, when the address is in the pool. -/
def osLmsGetShadowValue (memory : Memory) (node : LmsMemListNode) (addr : Nat) :
    Option (BitVec 8) :=
  (osLmsMem2Shadow node addr).map fun (shadowAddr, shadowOffset) =>
    (memory shadowAddr >>> shadowOffset) &&& 0x03

/-- `OsLmsSimpleMark`, where pointers have so many bytes. -/
def State.osLmsSimpleMark (state : State) (alignSize startAddr endAddr : Nat) (value : BitVec 32) :
    State :=
  if endAddr ≤ startAddr then state
  else if startAddr % alignSize ≠ 0 ∨ endAddr % alignSize ≠ 0 then state
  else
    match state.osLmsGetPoolNodeFromAddr startAddr with
    | none => state
    | some place =>
      let node := state.checkPoolArray place
      { state with
        memory := osLmsSetShadowValue state.memory node startAddr endAddr (value.setWidth 8) }

/-! ### Cells -/

/-- The bytes from an address on hold four cells each, and of all cells exactly some were given the
value of the cell in their place; no other byte was touched. -/
structure Painted (shadowStart : Nat) (cells : Nat → Prop) (value : BitVec 8)
    (before after : Memory) : Prop where
  inside : ∀ byte place, place < 4 → cells (4 * byte + place) →
    Cells.cell 2 (after (shadowStart + byte)) place = Cells.cell 2 value place
  outside : ∀ byte place, place < 4 → ¬cells (4 * byte + place) →
    Cells.cell 2 (after (shadowStart + byte)) place =
      Cells.cell 2 (before (shadowStart + byte)) place
  others : ∀ address, (∀ byte place, place < 4 → cells (4 * byte + place) →
    address ≠ shadowStart + byte) → after address = before address

namespace Painted

variable {shadowStart : Nat} {cells more : Nat → Prop} {value : BitVec 8}
  {before between after memory : Memory}

theorem none_ : Painted shadowStart (fun _ => False) value memory memory :=
  ⟨fun _ _ _ no => no.elim, fun _ _ _ _ => rfl, fun _ _ => rfl⟩

theorem congr (painted : Painted shadowStart cells value before after)
    (same : ∀ cell, cells cell ↔ more cell) : Painted shadowStart more value before after :=
  ⟨fun byte place within chosen => painted.inside byte place within ((same _).mpr chosen),
    fun byte place within other => painted.outside byte place within (mt (same _).mp other),
    fun address away => painted.others address fun byte place within chosen =>
      away byte place within ((same _).mp chosen)⟩

theorem then_ (first : Painted shadowStart cells value before between)
    (second : Painted shadowStart more value between after) :
    Painted shadowStart (fun cell => cells cell ∨ more cell) value before after := by
  refine ⟨fun byte place within chosen => ?_, fun byte place within other => ?_,
    fun address away => ?_⟩
  · by_cases again : more (4 * byte + place)
    · exact second.inside byte place within again
    · rw [second.outside byte place within again]
      exact first.inside byte place within (chosen.resolve_right again)
  · obtain ⟨one, two⟩ := not_or.mp other
    rw [second.outside byte place within two, first.outside byte place within one]
  · rw [second.others address fun byte place within chosen => away byte place within (.inr chosen),
      first.others address fun byte place within chosen => away byte place within (.inl chosen)]

end Painted

theorem painted_setMasked (memory : Memory) (shadowStart byte first last : Nat) (value : BitVec 8) :
    Painted shadowStart (fun cell => cell / 4 = byte ∧ first ≤ cell % 4 ∧ cell % 4 ≤ last) value
      memory (setMasked memory (shadowStart + byte) value (Cells.mask 8 2 first last)) := by
  have blended : ∀ place < 4, Cells.cell 2 (setMasked memory (shadowStart + byte) value
      (Cells.mask 8 2 first last) (shadowStart + byte)) place =
        if first ≤ place ∧ place ≤ last then Cells.cell 2 value place
        else Cells.cell 2 (memory (shadowStart + byte)) place := by
    intro place within
    rw [setMasked, Function.update_self]
    exact Cells.cell_blend _ _ (by omega)
  refine ⟨fun other place within chosen => ?_, fun other place within missed => ?_,
    fun address away => ?_⟩
  · obtain rfl : other = byte := by omega
    rw [blended place within, if_pos (by omega)]
  · by_cases same : other = byte
    · subst same
      rw [blended place within, if_neg (by omega)]
    · rw [setMasked, Function.update_of_ne (by omega)]
  · by_cases same : address = shadowStart + byte
    · subst same
      refine @Cells.eq_of_cells 8 2 4 _ _ (Nat.le_refl 8) fun place within => ?_
      rw [blended place within, if_neg fun chosen => ?_]
      exact away byte place within ⟨by omega, by omega, by omega⟩ rfl
    · rw [setMasked, Function.update_of_ne same]

theorem painted_memset (memory : Memory) (shadowStart byte count : Nat) (value : BitVec 8) :
    Painted shadowStart (fun cell => byte ≤ cell / 4 ∧ cell / 4 < byte + count) value memory
      (memset memory (shadowStart + byte) value count) := by
  refine ⟨fun other place within chosen => ?_, fun other place within missed => ?_,
    fun address away => ?_⟩
  · rw [memset, if_pos (by omega)]
  · rw [memset, if_neg (by omega)]
  · refine if_neg fun chosen => ?_
    refine away (address - shadowStart) 0 (by decide) (by omega) (by omega)

theorem mask_eq (first last : Nat) :
    0xFF#8 <<< (2 * first) &&& ~~~(0xFF#8 <<< (2 * last + 2)) = Cells.mask 8 2 first last := rfl

theorem first_mask_eq {first : Nat} : 0xFF#8 <<< (2 * first) = Cells.mask 8 2 first 3 := by
  have none_ : 0xFF#8 <<< (2 * 3 + 2) = 0#8 := rfl
  rw [← mask_eq, none_, not_zero, and_allOnes]

theorem painted_markFirst (memory : Memory) (shadowStart byte first : Nat) (value : BitVec 8) :
    (markFirst memory (shadowStart + byte) (2 * first) value).2 =
        shadowStart + (byte + if first = 0 then 0 else 1) ∧
      Painted shadowStart (fun cell => first ≠ 0 ∧ cell / 4 = byte ∧ first ≤ cell % 4) value memory
        (markFirst memory (shadowStart + byte) (2 * first) value).1 := by
  unfold markFirst
  by_cases zero : first = 0
  · subst zero
    exact ⟨rfl, Painted.none_.congr fun cell => ⟨fun no => no.elim, fun ⟨no, _⟩ => no rfl⟩⟩
  · rw [if_pos (by omega), if_neg zero, first_mask_eq]
    exact ⟨Nat.add_assoc _ _ _, (painted_setMasked memory shadowStart byte first 3 value).congr
      fun cell => by omega⟩

theorem painted_markLast (memory : Memory) (shadowStart byte last : Nat) (value : BitVec 8)
    (some_ : last < 3 → 0 < byte) : (markLast memory (shadowStart + byte) (2 * last) value).2 =
        shadowStart + (byte - if last < 3 then 1 else 0) ∧
      Painted shadowStart (fun cell => last < 3 ∧ cell / 4 = byte ∧ cell % 4 ≤ last) value memory
        (markLast memory (shadowStart + byte) (2 * last) value).1 := by
  unfold markLast
  by_cases part : last < 3
  · have more := some_ part
    rw [if_pos (by omega), if_pos part]
    refine ⟨by omega, (painted_setMasked memory shadowStart byte 0 last value).congr
      fun cell => by omega⟩
  · rw [if_neg (by omega), if_neg part]
    exact ⟨rfl, Painted.none_.congr fun cell => ⟨fun no => no.elim, fun ⟨no, _⟩ => part no⟩⟩

variable {node : LmsMemListNode} {start end_ : Nat}

theorem osLmsMem2Shadow_inside {offset : Nat} (inside : offset < node.poolSize.toNat) :
    osLmsMem2Shadow node (node.poolAddr + offset) =
      some (node.shadowStart + offset / 16, 2 * (offset % 16 / 4)) := by
  rw [osLmsMem2Shadow, if_neg (by omega), Nat.add_sub_cancel_left, Nat.mul_comm 2]

theorem painted_osLmsSetShadowValue (memory : Memory) (value : BitVec 8)
    (pool : 0 < node.poolAddr) (order : start ≤ end_) (inside : end_ ≤ node.poolSize.toNat)
    (aligned : start < end_ ∨ start % 4 = 0) :
    Painted node.shadowStart (fun cell => start / 4 ≤ cell ∧ 4 * cell < end_) value memory
      (osLmsSetShadowValue memory node (node.poolAddr + start) (node.poolAddr + end_) value) := by
  have nothing : start = end_ → ∀ cell, False ↔ start / 4 ≤ cell ∧ 4 * cell < end_ :=
    fun same cell => ⟨False.elim, fun both => by omega⟩
  unfold osLmsSetShadowValue
  by_cases full : start = node.poolSize.toNat
  · rw [osLmsMem2Shadow, if_pos (.inr (by omega))]
    exact Painted.none_.congr (nothing (by omega))
  rw [osLmsMem2Shadow_inside (by omega)]
  by_cases zero : end_ = 0
  · rw [osLmsMem2Shadow, if_pos (.inl (by omega))]
    exact Painted.none_.congr (nothing (by omega))
  obtain ⟨last, rfl⟩ := Nat.exists_eq_succ_of_ne_zero zero
  rw [Nat.succ_eq_add_one, ← Nat.add_assoc, Nat.add_sub_cancel, osLmsMem2Shadow_inside (by omega)]
  dsimp only
  by_cases one : start / 16 = last / 16
  · rw [if_pos (congrArg _ one)]
    exact (painted_setMasked memory node.shadowStart (start / 16) (start % 16 / 4)
      (last % 16 / 4) value).congr fun cell => by omega
  rw [if_neg (by omega)]
  obtain ⟨begins, first⟩ := painted_markFirst memory node.shadowStart (start / 16)
    (start % 16 / 4) value
  generalize markFirst memory (node.shadowStart + start / 16) (2 * (start % 16 / 4)) value =
    marked at begins first ⊢
  obtain ⟨memory₁, begin⟩ := marked
  obtain ⟨ends, second⟩ := painted_markLast memory₁ node.shadowStart (last / 16)
    (last % 16 / 4) value (by omega)
  have value_eq : value &&& 0xFF = value := and_allOnes
  rw [begins, ends, value_eq]
  generalize skipped : (if start % 16 / 4 = 0 then 0 else 1) = skip at begins ⊢
  generalize dropped : (if last % 16 / 4 < 3 then 1 else 0) = drop at ends ⊢
  have skip_eq : start % 16 / 4 = 0 ∧ skip = 0 ∨ start % 16 / 4 ≠ 0 ∧ skip = 1 := by
    split_ifs at skipped <;> omega
  have drop_eq : last % 16 / 4 < 3 ∧ drop = 1 ∨ last % 16 / 4 = 3 ∧ drop = 0 := by
    split_ifs at dropped <;> omega
  split_ifs with more
  · refine (((first.then_ second).then_ (painted_memset _ node.shadowStart
      (start / 16 + skip) _ value)).congr fun cell => ?_)
    omega
  · exact (first.then_ second).congr fun cell => by omega

/-! ### Values -/

def uniform (value : BitVec 2) : BitVec 8 := value.setWidth 8 * 0x55

theorem cell_uniform (value : BitVec 2) :
    ∀ place < 4, Cells.cell 2 (uniform value) place = value := by
  revert value
  decide

theorem shiftRight_and_eq (byte : BitVec 8) (place : Nat) :
    byte >>> (2 * place) &&& 0x03 = (Cells.cell 2 byte place).setWidth 8 := by
  have three : ∀ position < 8, (0x03 : BitVec 8).getLsbD position = decide (position < 2) := by
    decide
  refine eq_of_getLsbD_eq fun position inside => ?_
  rw [getLsbD_and, getLsbD_ushiftRight, getLsbD_setWidth, Cells.cell,
    getLsbD_extractLsb', three position inside, decide_eq_true inside, Bool.true_and,
    Bool.and_comm]

theorem osLmsGetShadowValue_inside (memory : Memory) {offset : Nat}
    (inside : offset < node.poolSize.toNat) :
    osLmsGetShadowValue memory node (node.poolAddr + offset) =
      some ((Cells.cell 2 (memory (node.shadowStart + offset / 16)) (offset % 16 / 4)).setWidth
        8) := by
  rw [osLmsGetShadowValue, osLmsMem2Shadow_inside inside]
  exact congrArg some (shiftRight_and_eq _ _)

/-- The four bytes around an address meet an interval. -/
def Meets (node : LmsMemListNode) (start end_ addr : Nat) : Prop :=
  start < node.poolAddr + (addr - node.poolAddr) / 4 * 4 + 4 ∧
    node.poolAddr + (addr - node.poolAddr) / 4 * 4 < end_

/-- A marking gives the cells of the addresses that are chosen a value, and leaves all others. -/
structure Marked (node : LmsMemListNode) (chosen : Nat → Prop) (value : BitVec 2)
    (before after : Memory) : Prop where
  inside : ∀ addr, node.poolAddr ≤ addr → addr < node.poolAddr + node.poolSize.toNat →
    chosen addr → osLmsGetShadowValue after node addr = some (value.setWidth 8)
  outside : ∀ addr, node.poolAddr ≤ addr → addr < node.poolAddr + node.poolSize.toNat →
    ¬chosen addr → osLmsGetShadowValue after node addr = osLmsGetShadowValue before node addr
  others : ∀ address, address < node.shadowStart ∨
    node.shadowStart + (node.poolSize.toNat + 15) / 16 ≤ address → after address = before address

theorem marked_osLmsSetShadowValue (memory : Memory) (value : BitVec 2)
    (pool : 0 < node.poolAddr) (begins : node.poolAddr ≤ start) (order : start ≤ end_)
    (inside : end_ ≤ node.poolAddr + node.poolSize.toNat)
    (aligned : start < end_ ∨ (start - node.poolAddr) % 4 = 0) :
    Marked node (Meets node start end_) value memory
      (osLmsSetShadowValue memory node start end_ (uniform value)) := by
  obtain ⟨first, rfl⟩ := Nat.exists_eq_add_of_le begins
  obtain ⟨last, rfl⟩ := Nat.exists_eq_add_of_le (begins.trans order)
  rw [Nat.add_sub_cancel_left] at aligned
  have painted := @painted_osLmsSetShadowValue node first last memory (uniform value) pool
    (by omega) (by omega) (by omega)
  refine ⟨fun addr low high chosen => ?_, fun addr low high other => ?_, fun address away => ?_⟩
  · obtain ⟨offset, rfl⟩ := Nat.exists_eq_add_of_le low
    rw [Meets, Nat.add_sub_cancel_left] at chosen
    rw [osLmsGetShadowValue_inside _ (by omega),
      painted.inside (offset / 16) (offset % 16 / 4) (by omega) (by omega),
      cell_uniform value _ (by omega)]
  · obtain ⟨offset, rfl⟩ := Nat.exists_eq_add_of_le low
    rw [Meets] at other
    rw [osLmsGetShadowValue_inside _ (by omega), osLmsGetShadowValue_inside _ (by omega),
      painted.outside (offset / 16) (offset % 16 / 4) (by omega) (by omega)]
  · exact painted.others address fun byte place within chosen => by omega

/-! ### Registered pools -/

/-- What is left for a pool is a multiple of 64, and its shadow has room. -/
theorem osLmsPoolResize_spec (size : BitVec 32) :
    (osLmsPoolResize size).toNat = size.toNat / 17 * 16 / 64 * 64 := by
  have resized : (lmsPoolResize size).toNat = size.toNat / 17 * 16 := by
    rw [lmsPoolResize, toNat_mul, toNat_udiv]
    exact Nat.mod_eq_of_lt (by simp only [BitVec.reduceAdd, BitVec.reduceToNat]; omega)
  have remainder := @and_sub_one_toNat 32 6 poolAddrAlignsize rfl (lmsPoolResize size)
  have le : (lmsPoolResize size &&& (poolAddrAlignsize - 1)).toNat ≤
      (lmsPoolResize size).toNat := by
    rw [remainder]
    exact Nat.mod_le _ _
  rw [osLmsPoolResize, osMemAlignBack, and_not_eq_sub, toNat_sub_of_le le, remainder,
    resized]
  omega

/-- The shadow of a pool that was registered with a size: it follows what is left for the pool and
ends where the memory of the pool does, and every four bytes of the pool have a cell in it. -/
structure Shadowed (node : LmsMemListNode) (size : BitVec 32) : Prop where
  behind : node.shadowStart = node.poolAddr + node.poolSize.toNat
  ends : node.shadowStart + node.shadowSize.toNat = node.poolAddr + size.toNat
  cells : ∀ addr, node.poolAddr ≤ addr → addr < node.poolAddr + node.poolSize.toNat →
    ∃ shadowAddr shadowOffset,
      osLmsMem2Shadow node addr = some (shadowAddr, shadowOffset) ∧
        shadowOffset = (addr - node.poolAddr) / 4 % 4 * 2 ∧
        shadowAddr = node.shadowStart + (addr - node.poolAddr) / 4 / 4 ∧
        shadowAddr < node.shadowStart + node.shadowSize.toNat

theorem shadowed_poolNode (pool : Nat) (size : BitVec 32) :
    Shadowed (State.poolNode pool size) size := by
  have real := osLmsPoolResize_spec size
  have shadow : (State.poolNode pool size).shadowSize.toNat =
      size.toNat - (osLmsPoolResize size).toNat := by
    rw [State.poolNode, Nat.add_sub_add_left]
    exact Nat.mod_eq_of_lt (by omega)
  refine ⟨rfl, ?_, fun addr low high => ?_⟩
  · rw [shadow]
    simp only [State.poolNode]
    omega
  · obtain ⟨offset, rfl⟩ := Nat.exists_eq_add_of_le low
    have inside : offset < (State.poolNode pool size).poolSize.toNat := by omega
    refine ⟨_, _, osLmsMem2Shadow_inside inside, ?_, ?_, ?_⟩
    · omega
    · omega
    · simp only [State.poolNode] at inside
      omega

/-- What is done to the pools, and whatever else writes to the memory. -/
inductive Call where
  | add (pool : Nat) (size : BitVec 32)
  | del (pool : Nat)
  | simpleMark (alignSize startAddr endAddr : Nat) (value : BitVec 32)
  | store (memory : Memory)

def osLmsInit (memory : Memory) : State := ⟨memory, fun _ => ⟨false, 0, 0, 0, 0⟩, []⟩

def State.call (maxRecordPoolNum : Nat) (state : State) : Call → State
  | .add pool size => (state.losLmsCheckPoolAdd maxRecordPoolNum pool size).1
  | .del pool => state.losLmsCheckPoolDel pool
  | .simpleMark alignSize startAddr endAddr value =>
      state.osLmsSimpleMark alignSize startAddr endAddr value
  | .store memory => { state with memory := memory }

/-- The state after some calls. -/
def run (maxRecordPoolNum : Nat) (memory : Memory) (calls : List Call) : State :=
  calls.foldl (State.call maxRecordPoolNum) (osLmsInit memory)

/-- The nodes in the list are different ones in use, each of a pool that was registered. -/
structure Registered (calls : List Call) (state : State) : Prop where
  nodup : state.checkPoolList.Nodup
  used : ∀ place ∈ state.checkPoolList, (state.checkPoolArray place).used = true
  made : ∀ place ∈ state.checkPoolList, ∃ pool size, pool ≠ 0 ∧ Call.add pool size ∈ calls ∧
    state.checkPoolArray place = State.poolNode pool size

namespace Registered

variable {calls more : List Call} {state : State}

section

variable (registered : Registered calls state)
include registered

theorem mono (all : calls ⊆ more) : Registered more state :=
  ⟨registered.nodup, registered.used, fun place member => by
    obtain ⟨pool, size, some_, called, same⟩ := registered.made place member
    exact ⟨pool, size, some_, all called, same⟩⟩

theorem store (memory : Memory) : Registered calls { state with memory := memory } :=
  ⟨registered.nodup, registered.used, registered.made⟩

theorem release (place : Nat) : Registered calls (state.release place) := by
  have kept : ∀ other ∈ state.checkPoolList.erase place, other ∈ state.checkPoolList ∧
      (state.release place).checkPoolArray other = state.checkPoolArray other := by
    intro other member
    obtain ⟨different, present⟩ := (List.Nodup.mem_erase_iff registered.nodup).mp member
    exact ⟨present, Function.update_of_ne different _ _⟩
  refine ⟨registered.nodup.erase _, fun other member => ?_, fun other member => ?_⟩
  · obtain ⟨present, same⟩ := kept other member
    rw [same]
    exact registered.used other present
  · obtain ⟨present, same⟩ := kept other member
    rw [same]
    exact registered.made other present

theorem register (maxRecordPoolNum : Nat) {pool : Nat}
    (some_ : pool ≠ 0) (size : BitVec 32) (called : Call.add pool size ∈ calls) :
    Registered calls (state.register maxRecordPoolNum pool size).1 := by
  unfold State.register
  cases found : state.osLmsCheckPoolCreate maxRecordPoolNum with
  | none => exact registered
  | some place =>
    have unused : (state.checkPoolArray place).used = false := by
      simpa only [Bool.not_eq_true'] using List.find?_some found
    have fresh : place ∉ state.checkPoolList := by
      intro member
      rw [registered.used place member] at unused
      cases unused
    have kept : ∀ other ∈ state.checkPoolList,
        Function.update state.checkPoolArray place (State.poolNode pool size) other =
          state.checkPoolArray other := by
      intro other member
      exact Function.update_of_ne (fun same : other = place => fresh (same ▸ member)) _ _
    refine ⟨List.nodup_cons.mpr ⟨fresh, registered.nodup⟩, ?_, ?_⟩
    · refine List.forall_mem_cons.mpr ⟨?_, fun other member => ?_⟩
      · dsimp only
        rw [Function.update_self]
        rfl
      · dsimp only
        rw [kept other member]
        exact registered.used other member
    · refine List.forall_mem_cons.mpr ⟨?_, fun other member => ?_⟩
      · exact ⟨pool, size, some_, called, Function.update_self _ _ _⟩
      · dsimp only
        rw [kept other member]
        exact registered.made other member

theorem call (maxRecordPoolNum : Nat) (call : Call) :
    Registered (calls ++ [call]) (state.call maxRecordPoolNum call) := by
  have before : Registered (calls ++ [call]) state := registered.mono (List.subset_append_left _ _)
  cases call with
  | add pool size =>
    have called : Call.add pool size ∈ calls ++ [Call.add pool size] :=
      List.mem_append_right _ List.mem_cons_self
    unfold State.call State.losLmsCheckPoolAdd
    dsimp only
    split_ifs with null
    · exact before
    · split
      · exact before.register maxRecordPoolNum null size called
      · split_ifs
        · exact before
        · exact (before.release _).register maxRecordPoolNum null size called
  | del pool =>
    unfold State.call State.losLmsCheckPoolDel
    dsimp only
    split_ifs
    · exact before
    · split
      · exact before
      · exact before.release _
  | simpleMark alignSize startAddr endAddr value =>
    unfold State.call State.osLmsSimpleMark
    dsimp only
    split_ifs
    · exact before
    · exact before
    · split
      · exact before
      · exact before.store _
  | store memory => exact before.store memory

end

end Registered

theorem registered_run (maxRecordPoolNum : Nat) (memory : Memory) (calls : List Call) :
    Registered calls (run maxRecordPoolNum memory calls) := by
  induction calls using List.reverseRecOn with
  | nil => exact ⟨List.nodup_nil, List.forall_mem_nil _, List.forall_mem_nil _⟩
  | append_singleton calls call hypothesis =>
    rw [run, List.foldl_append]
    exact hypothesis.call maxRecordPoolNum call

/-- What a marking of an interval of a pool does, when the interval is aligned to the cells: the
cells of its addresses are given the value and all others are as they were. -/
theorem Marked.of_aligned {memory after : Memory} {value : BitVec 2}
    (begins : node.poolAddr ≤ start) (order : start ≤ end_)
    (first : (start - node.poolAddr) % 4 = 0) (last : (end_ - node.poolAddr) % 4 = 0)
    (marked : Marked node (Meets node start end_) value memory after) :
    Marked node (fun addr => start ≤ addr ∧ addr < end_) value memory after := by
  have same : ∀ addr, node.poolAddr ≤ addr →
      (Meets node start end_ addr ↔ start ≤ addr ∧ addr < end_) := by
    intro addr low
    rw [Meets]
    omega
  exact ⟨fun addr low high chosen => marked.inside addr low high ((same addr low).mpr chosen),
    fun addr low high other => marked.outside addr low high (mt (same addr low).mp other),
    marked.others⟩

/-- For every pool on the list after any run: it was registered with a size, the shadow fills the
end of its memory with a cell for each four bytes of the rest, and a marking of an interval of the
rest that is aligned to the cells gives exactly those of the interval the value; a marking of any
other interval that is not empty, exactly those whose four bytes meet it. -/
theorem shadow_marks (maxRecordPoolNum : Nat) (initial : Memory) (calls : List Call) (place : Nat)
    (listed : place ∈ (run maxRecordPoolNum initial calls).checkPoolList) :
    let node := (run maxRecordPoolNum initial calls).checkPoolArray place
    (∃ size, Call.add node.poolAddr size ∈ calls ∧ Shadowed node size) ∧
      ∀ (memory : Memory) (start end_ : Nat) (value : BitVec 2), node.poolAddr ≤ start →
        start ≤ end_ → end_ ≤ node.poolAddr + node.poolSize.toNat →
          ((start - node.poolAddr) % 4 = 0 → (end_ - node.poolAddr) % 4 = 0 →
            Marked node (fun addr => start ≤ addr ∧ addr < end_) value memory
              (osLmsSetShadowValue memory node start end_ (uniform value))) ∧
          (start < end_ → Marked node (Meets node start end_) value memory
            (osLmsSetShadowValue memory node start end_ (uniform value))) := by
  obtain ⟨pool, size, some_, called, same⟩ :=
    (registered_run maxRecordPoolNum initial calls).made place listed
  intro node
  have made : node = State.poolNode pool size := same
  rw [made]
  have positive : 0 < (State.poolNode pool size).poolAddr := Nat.pos_of_ne_zero some_
  refine ⟨⟨size, called, shadowed_poolNode pool size⟩,
    fun memory start end_ value begins order inside => ⟨fun first last => ?_, fun more => ?_⟩⟩
  · exact (marked_osLmsSetShadowValue memory value positive begins order inside
      (.inr first)).of_aligned begins order first last
  · exact marked_osLmsSetShadowValue memory value positive begins order inside (.inl more)

/-- A pool of 1100 bytes keeps 1024 of them. -/
theorem shadow_marks_sample :
    let node := (run 4 (fun _ => 0) [.add 0x1000 1100]).checkPoolArray 0
    (∃ size, Call.add node.poolAddr size ∈ [Call.add 0x1000 1100] ∧ Shadowed node size) ∧
      Marked node (fun addr => 0x1004 ≤ addr ∧ addr < 0x1054) 2 (fun _ => 0xFF)
        (osLmsSetShadowValue (fun _ => 0xFF) node 0x1004 0x1054 (uniform 2)) := by
  have listed : 0 ∈ (run 4 (fun _ => 0) [.add 0x1000 1100]).checkPoolList := by decide
  obtain ⟨made, marks⟩ := shadow_marks 4 (fun _ => 0) [.add 0x1000 1100] 0 listed
  exact ⟨made, (marks (fun _ => 0xFF) 0x1004 0x1054 2 (by decide) (by decide) (by decide)).1
    (by decide) (by decide)⟩

end TowerSafe.Lms
