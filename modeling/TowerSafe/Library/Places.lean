/-
This file is a small library about lists of places. What the places hold together is a sum; changing
one place changes the sum by what the place held and holds.
-/

import Mathlib.Algebra.BigOperators.Group.List.Basic

namespace TowerSafe.Library

variable {Entry Amount : Type} [AddCommMonoid Amount]

theorem sum_map_modify {entries : List Entry} {place : Nat} {entry : Entry}
    (found : entries[place]? = some entry) (change : Entry → Entry) (value : Entry → Amount) :
    ((entries.modify place change).map value).sum + value entry =
      (entries.map value).sum + value (change entry) := by
  induction entries generalizing place with
  | nil => exact absurd found (by simp)
  | cons first rest hypothesis =>
    cases place with
    | zero =>
      obtain rfl : first = entry := by simpa using found
      simp only [List.modify_zero_cons, List.map_cons, List.sum_cons]
      rw [add_right_comm, add_comm (value (change first)), add_right_comm]
    | succ place =>
      have later := hypothesis found
      simp only [List.modify_succ_cons, List.map_cons, List.sum_cons]
      rw [add_assoc, later, add_assoc]

theorem sum_map_set {entries : List Entry} {place : Nat} {entry : Entry}
    (found : entries[place]? = some entry) (next : Entry) (value : Entry → Amount) :
    ((entries.set place next).map value).sum + value entry =
      (entries.map value).sum + value next := by
  have : Inhabited Entry := ⟨entry⟩
  have changed := sum_map_modify found (fun _ => next) value
  rwa [List.modify_eq_set] at changed

end TowerSafe.Library
