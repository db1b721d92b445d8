/-
This file is a small library of words that are divided into cells of some bits each. A word that is
blended with another one through a mask of whole cells has the cells of the other where the mask is,
and its own elsewhere.
-/

import Mathlib.Algebra.Order.Ring.Nat

namespace TowerSafe.Library.Cells

open BitVec

variable {bits : Nat}

def cell (width : Nat) (word : BitVec bits) (place : Nat) : BitVec width :=
  word.extractLsb' (width * place) width

/-- The mask of the cells from one on to another. -/
def mask (bits width first last : Nat) : BitVec bits :=
  (BitVec.allOnes bits <<< (width * first)) &&&
    ~~~(BitVec.allOnes bits <<< (width * (last + 1)))

def blend (word value mask : BitVec bits) : BitVec bits :=
  word &&& ~~~mask ||| value &&& mask

theorem getLsbD_mask {width first last position : Nat} (inside : position < bits) :
    (mask bits width first last).getLsbD position =
      decide (width * first ≤ position ∧ position < width * (last + 1)) := by
  rw [Bool.eq_iff_iff, mask]
  simp only [getLsbD_and, getLsbD_not, getLsbD_shiftLeft,
    getLsbD_allOnes, inside, Bool.and_eq_true, Bool.not_eq_true', Bool.and_eq_false_imp,
    decide_eq_true_eq, decide_eq_false_iff_not, not_lt, decide_true, Bool.true_and]
  omega

theorem cell_between {width first last place offset : Nat} (inside : offset < width) :
    (width * first ≤ width * place + offset ∧ width * place + offset < width * (last + 1)) ↔
      first ≤ place ∧ place ≤ last := by
  constructor
  · rintro ⟨low, high⟩
    constructor
    · by_contra before
      have more : width * (place + 1) ≤ width * first :=
        Nat.mul_le_mul_left width (Nat.lt_of_not_le before)
      rw [Nat.mul_succ] at more
      omega
    · by_contra behind
      have more : width * (last + 1) ≤ width * place :=
        Nat.mul_le_mul_left width (Nat.lt_of_not_le behind)
      omega
  · rintro ⟨low, high⟩
    have least := Nat.mul_le_mul_left width low
    have most : width * (place + 1) ≤ width * (last + 1) :=
      Nat.mul_le_mul_left width (Nat.succ_le_succ high)
    rw [Nat.mul_succ] at most
    omega

theorem cell_blend {width first last place : Nat} (word value : BitVec bits)
    (inside : width * (place + 1) ≤ bits) :
    cell width (blend word value (mask bits width first last)) place =
      if first ≤ place ∧ place ≤ last then cell width value place else cell width word place := by
  rw [Nat.mul_succ] at inside
  ext offset within
  have position : width * place + offset < bits := by omega
  have between := @cell_between width first last place offset within
  have there : (cell width (blend word value (mask bits width first last)) place)[offset] =
      (blend word value (mask bits width first last)).getLsbD (width * place + offset) := by
    rw [cell, getElem_extractLsb']
  rw [there, blend, getLsbD_or, getLsbD_and, getLsbD_and,
    getLsbD_not, getLsbD_mask position]
  split_ifs with chosen
  · rw [decide_eq_true (between.mpr chosen), cell, getElem_extractLsb']
    simp only [Bool.not_true, Bool.and_false, Bool.and_true, Bool.false_or]
  · rw [decide_eq_false (mt between.mp chosen), cell, getElem_extractLsb']
    simp only [position, decide_true, Bool.not_false, Bool.and_true, Bool.and_false, Bool.or_false]

theorem eq_of_cells {width count : Nat} {word other : BitVec bits} (whole : bits ≤ width * count)
    (same : ∀ place < count, cell width word place = cell width other place) : word = other := by
  ext position inside
  have some_ : 0 < width := Nat.pos_of_ne_zero fun zero => by
    rw [zero, Nat.zero_mul] at whole
    omega
  have place : position / width < count := Nat.div_lt_of_lt_mul (Nat.lt_of_lt_of_le inside whole)
  have split : width * (position / width) + position % width = position :=
    Nat.div_add_mod position width
  have equal := congrArg (fun cell => cell.getLsbD (position % width)) (same _ place)
  simp only [cell, getLsbD_extractLsb', Nat.mod_lt position some_, decide_true,
    Bool.true_and, split] at equal
  rwa [← getLsbD_eq_getElem, ← getLsbD_eq_getElem]

end TowerSafe.Library.Cells
