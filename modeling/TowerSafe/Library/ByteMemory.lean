/-
This file is a small library of byte-addressed memory that remembers where it was written. Addresses
are bit vectors of any width and wrap around. A store at an offset from the base of an area stays in
the area exactly when the offset and the number of bytes, as numbers, do not pass its end; and the
bits below an alignment that is a power of two are the remainder of the address.
-/

import Mathlib.Data.Nat.Bitwise
import Mathlib.Logic.Function.Basic

namespace TowerSafe.Library

open BitVec

/-- Bytes at addresses, and the addresses written so far. -/
structure ByteMemory (width : Nat) where
  byte : BitVec width → BitVec 8
  written : List (BitVec width)

/-- The address is in the area of `size` bytes at `base`. -/
def Inside {width : Nat} (base : BitVec width) (size : Nat) (address : BitVec width) : Prop :=
  base.toNat ≤ address.toNat ∧ address.toNat < base.toNat + size

instance {width : Nat} (base : BitVec width) (size : Nat) (address : BitVec width) :
    Decidable (Inside base size address) :=
  inferInstanceAs (Decidable (_ ∧ _))

namespace ByteMemory

variable {width : Nat} {memory : ByteMemory width}

/-- Write bytes, the first at an address and the others after it. -/
def store (memory : ByteMemory width) (address : BitVec width) :
    List (BitVec 8) → ByteMemory width
  | [] => memory
  | value :: rest =>
      store ⟨Function.update memory.byte address value, address :: memory.written⟩
        (address + 1) rest

/-- The four bytes at an address, the lowest first. -/
def word (memory : ByteMemory width) (address : BitVec width) : BitVec 32 :=
  memory.byte (address + 3) ++ memory.byte (address + 2) ++ memory.byte (address + 1) ++
    memory.byte address

/-- The two bytes at an address, the lowest first. -/
def half (memory : ByteMemory width) (address : BitVec width) : BitVec 16 :=
  memory.byte (address + 1) ++ memory.byte address

/-- The four bytes of a word, the lowest first. -/
def ofWord (value : BitVec 32) : List (BitVec 8) :=
  [value.extractLsb' 0 8, value.extractLsb' 8 8, value.extractLsb' 16 8, value.extractLsb' 24 8]

/-- Everything written is in the area. -/
def Within (base : BitVec width) (size : Nat) (memory : ByteMemory width) : Prop :=
  ∀ address ∈ memory.written, Inside base size address

theorem mem_written_store {address target : BitVec width} {values : List (BitVec 8)} :
    target ∈ (memory.store address values).written ↔
      target ∈ memory.written ∨ ∃ place < values.length, target = address + .ofNat width place := by
  induction values generalizing memory address with
  | nil => simp [store]
  | cons value rest hypothesis =>
    rw [store, hypothesis, List.mem_cons]
    have shifted : ∀ place, address + 1 + BitVec.ofNat width place =
        address + BitVec.ofNat width (place + 1) := by
      intro place
      rw [BitVec.add_assoc, BitVec.ofNat_add, BitVec.add_comm (BitVec.ofNat width place)]
      rfl
    constructor
    · rintro ((rfl | before) | ⟨place, inside, rfl⟩)
      · exact .inr ⟨0, Nat.succ_pos _, by simp⟩
      · exact .inl before
      · exact .inr ⟨place + 1, Nat.succ_lt_succ inside, shifted place⟩
    · rintro (before | ⟨place, inside, rfl⟩)
      · exact .inl (.inr before)
      · cases place with
        | zero => exact .inl (.inl (by simp))
        | succ place =>
          exact .inr ⟨place, Nat.lt_of_succ_lt_succ inside, (shifted place).symm⟩

/-- Some bytes at an offset of an area are all in the area exactly when they end before its end. The
area does not begin at zero and does not wrap around. -/
theorem forall_inside_iff {base offset : BitVec width} {size count : Nat}
    (room : base.toNat + size ≤ 2 ^ width) (some_ : 0 < base.toNat) (more : 0 < count) :
    (∀ place < count, Inside base size (base + offset + .ofNat width place)) ↔
      offset.toNat + count ≤ size := by
  have number : ∀ place, (base + offset + BitVec.ofNat width place).toNat =
      (base.toNat + offset.toNat + place) % 2 ^ width := by
    intro place
    rw [toNat_add, toNat_add, toNat_ofNat, Nat.mod_add_mod, Nat.add_mod_mod]
  constructor
  · intro inside
    by_contra past
    by_cases beyond : size ≤ offset.toNat
    · obtain ⟨lower, upper⟩ := inside 0 more
      rw [number, Nat.add_zero] at lower upper
      by_cases wraps : base.toNat + offset.toNat < 2 ^ width
      · rw [Nat.mod_eq_of_lt wraps] at upper
        omega
      · rw [Nat.mod_eq_sub_mod (Nat.le_of_not_lt wraps), Nat.mod_eq_of_lt (by omega)] at lower
        omega
    · obtain ⟨lower, upper⟩ := inside (size - offset.toNat) (by omega)
      have last : base.toNat + offset.toNat + (size - offset.toNat) = base.toNat + size := by omega
      rw [number, last] at lower upper
      rcases Nat.lt_or_eq_of_le room with short | full
      · rw [Nat.mod_eq_of_lt short] at upper
        omega
      · rw [full, Nat.mod_self] at lower
        omega
  · intro fits place inside
    have short : base.toNat + offset.toNat + place < 2 ^ width := by omega
    rw [Inside, number, Nat.mod_eq_of_lt short]
    omega

/-- A store at an offset of an area stays in the area exactly when it ends before the end. -/
theorem within_store_iff {base offset : BitVec width} {size : Nat} {values : List (BitVec 8)}
    (room : base.toNat + size ≤ 2 ^ width) (some_ : 0 < base.toNat) :
    (memory.store (base + offset) values).Within base size ↔
      memory.Within base size ∧ (values ≠ [] → offset.toNat + values.length ≤ size) := by
  have split : (memory.store (base + offset) values).Within base size ↔
      memory.Within base size ∧
        ∀ place < values.length, Inside base size (base + offset + .ofNat width place) := by
    constructor
    · intro within
      exact ⟨fun address before => within address (mem_written_store.mpr (.inl before)),
        fun place inside => within _ (mem_written_store.mpr (.inr ⟨place, inside, rfl⟩))⟩
    · rintro ⟨before, stored⟩ address member
      rcases mem_written_store.mp member with old | ⟨place, inside, rfl⟩
      · exact before address old
      · exact stored place inside
  rw [split]
  refine and_congr_right fun _ => ?_
  cases values with
  | nil => simp
  | cons value rest =>
    rw [forall_inside_iff room some_ (List.length_pos_iff.mpr (List.cons_ne_nil _ _))]
    exact ⟨fun fits _ => fits, fun fits => fits (List.cons_ne_nil _ _)⟩

end ByteMemory

/-! ### Alignment -/

section Alignment

variable {width exponent : Nat} {boundary : BitVec width}

theorem and_not_eq_sub (address mask : BitVec width) :
    address &&& ~~~mask = address - (address &&& mask) := by
  have disjoint : (address &&& mask) &&& (address &&& ~~~mask) = BitVec.ofNat width 0 := by
    ext place inside
    simp only [getElem_and, getElem_not, getElem_zero]
    cases address[place] <;> cases mask[place] <;> rfl
  have whole : (address &&& mask) + (address &&& ~~~mask) = address := by
    rw [add_eq_or_of_and_eq_zero _ _ disjoint]
    ext place inside
    simp only [getElem_and, getElem_not, getElem_or]
    cases address[place] <;> cases mask[place] <;> rfl
  rw [BitVec.eq_sub_iff_add_eq, BitVec.add_comm]
  exact whole

theorem and_sub_one_toNat (powTwo : boundary.toNat = 2 ^ exponent) (address : BitVec width) :
    (address &&& (boundary - 1)).toNat = address.toNat % 2 ^ exponent := by
  have below : 2 ^ exponent < 2 ^ width := powTwo ▸ boundary.isLt
  have some_ : 0 < 2 ^ exponent := Nat.two_pow_pos exponent
  have mask : (boundary - 1).toNat = 2 ^ exponent - 1 := by
    have one : (1 : BitVec width).toNat = 1 := by
      refine Nat.mod_eq_of_lt (Nat.one_lt_two_pow fun zero => ?_)
      rw [zero] at below
      exact absurd below (Nat.not_lt.mpr some_)
    rw [toNat_sub_of_le (by rw [le_def, one, powTwo]; exact some_), one, powTwo]
  rw [toNat_and, mask, Nat.and_two_pow_sub_one_eq_mod]

theorem and_sub_one_add (powTwo : boundary.toNat = 2 ^ exponent) {base : BitVec width}
    (aligned : boundary.toNat ∣ base.toNat) (address : BitVec width) :
    (base + address) &&& (boundary - 1) = address &&& (boundary - 1) := by
  refine eq_of_toNat_eq ?_
  have below : exponent ≤ width :=
    (Nat.pow_le_pow_iff_right (by decide)).mp (Nat.le_of_lt (powTwo ▸ boundary.isLt))
  rw [and_sub_one_toNat powTwo, and_sub_one_toNat powTwo, toNat_add,
    Nat.mod_mod_of_dvd _ (Nat.pow_dvd_pow 2 below), ← powTwo, Nat.add_mod,
    Nat.mod_eq_zero_of_dvd aligned, Nat.zero_add, Nat.mod_mod]

end Alignment

end TowerSafe.Library
