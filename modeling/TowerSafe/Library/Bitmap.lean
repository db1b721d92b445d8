/-
This file is a small library of bitmaps, as functions from places to bits: how many of the first
places are set, and the first one that is not.
-/

import Mathlib.Data.List.Basic

namespace TowerSafe.Library

theorem countP_range_of_update {before after : Nat → Bool} {place size : Nat}
    (inside : place < size) (off : before place = false)
    (other : ∀ index, index ≠ place → after index = before index) : (List.range size).countP after =
      (List.range size).countP before + if after place then 1 else 0 := by
  induction size with
  | zero => exact absurd inside (Nat.not_lt_zero place)
  | succ size hypothesis =>
    simp only [List.range_succ, List.countP_append, List.countP_singleton]
    by_cases last : place = size
    · subst last
      have same : (List.range place).countP after = (List.range place).countP before :=
        List.countP_congr fun index member => by
          rw [other index (Nat.ne_of_lt (List.mem_range.mp member))]
      rw [same, off, if_neg Bool.false_ne_true, Nat.add_zero]
    · rw [hypothesis (by omega), other size (Ne.symm last)]
      omega

theorem find?_range_of_countP_lt {test : Nat → Bool} {size more : Nat}
    (few : (List.range size).countP test < size) (longer : size ≤ more) :
    ∃ place, (List.range more).find? (fun index => !test index) = some place ∧ place < size ∧
      test place = false := by
  have some_ : ∃ free < size, test free = false := by
    by_contra none_
    have all : (List.range size).countP test = (List.range size).length :=
      List.countP_eq_length.mpr fun index member => by
        by_contra unset
        exact none_ ⟨index, List.mem_range.mp member, Bool.eq_false_iff.mpr unset⟩
    rw [all, List.length_range] at few
    exact Nat.lt_irrefl size few
  obtain ⟨free, bound, unset⟩ := some_
  cases found : (List.range more).find? fun index => !test index with
  | none =>
    have set := List.find?_eq_none.mp found free (List.mem_range.mpr (by omega))
    rw [unset] at set
    exact absurd rfl set
  | some place =>
    obtain ⟨clear, -, before⟩ := List.find?_range_eq_some.mp found
    have clear : test place = false := by simpa using clear
    refine ⟨place, rfl, ?_, clear⟩
    by_contra beyond
    have passed := before free (by omega)
    rw [unset] at passed
    exact absurd passed (by decide)

end TowerSafe.Library
