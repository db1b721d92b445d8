/-
This file is a small library of tables that are sorted by a key: the entries of the first slots of
an array. A binary search with any test that is met in one slot at most finds that slot; an entry is
inserted by shifting those above it, and removed by moving them back. The rules say which entries a
table holds, and that it stays sorted.
-/

import Mathlib

namespace TowerSafe.Library.SortedTable

/-! ### Binary search -/

/-- A binary search from `low` to `high`: `hit` tells the slot, `below` that it is further up. -/
def bisect (hit below : Nat → Bool) : Nat → Int → Int → Option Nat
  | 0, _, _ => none
  | fuel + 1, low, high =>
      if low ≤ high then
        let mid := (high + low) / 2
        if hit mid.toNat then some mid.toNat
        else if below mid.toNat then bisect hit below fuel (mid + 1) high
        else bisect hit below fuel low (mid - 1)
      else none

section Search

variable {hit below : Nat → Bool} {fuel place : Nat} {low high : Int}

theorem bisect_some (positive : 0 ≤ low) (found : bisect hit below fuel low high = some place) :
    hit place = true ∧ low ≤ place ∧ (place : Int) ≤ high := by
  induction fuel generalizing low high with
  | zero => cases found
  | succ fuel hypothesis =>
    rw [bisect] at found
    split at found
    · next ordered =>
      dsimp only at found
      split at found
      · next met =>
        obtain rfl := Option.some_inj.mp found
        exact ⟨met, by omega, by omega⟩
      split at found
      · have inside := hypothesis (by omega) found
        exact ⟨inside.1, by omega, inside.2.2⟩
      · have inside := hypothesis positive found
        exact ⟨inside.1, inside.2.1, by omega⟩
    · cases found

theorem bisect_eq_some (positive : 0 ≤ low) (enough : high + 1 - low ≤ fuel)
    (above : low ≤ place) (under : (place : Int) ≤ high) (met : hit place = true)
    (before : ∀ other < place, hit other = false ∧ below other = true)
    (after : ∀ other, place < other → (other : Int) ≤ high →
      hit other = false ∧ below other = false) : bisect hit below fuel low high = some place := by
  induction fuel generalizing low high with
  | zero => omega
  | succ fuel hypothesis =>
    rw [bisect, if_pos (by omega)]
    dsimp only
    rcases Nat.lt_trichotomy ((high + low) / 2).toNat place with lower | same | higher
    · obtain ⟨missed, further⟩ := before _ lower
      rw [missed, further]
      exact hypothesis (by omega) (by omega) (by omega) under after
    · rw [same, met, if_pos rfl]
    · obtain ⟨missed, back⟩ := after _ higher (by omega)
      rw [missed, back]
      exact hypothesis positive (by omega) above (by omega) fun other beyond inside =>
        after other beyond (by omega)

end Search

/-! ### Tables -/

section Tables

variable {Entry Key : Type} [LinearOrder Key] (key : Entry → Key)

/-- The keys of the first slots grow. -/
def Sorted (slots : Nat → Entry) (count : Nat) : Prop :=
  ∀ one other, one < other → other < count → key (slots one) < key (slots other)

def Holds (slots : Nat → Entry) (count : Nat) (entry : Entry) : Prop :=
  ∃ place < count, slots place = entry

/-- Shift the entries up that are not below a key, from the last one on. The result is the slot that
is free then. -/
def shift (bound : Key) : (Nat → Entry) → Nat → (Nat → Entry) × Nat
  | slots, 0 => (slots, 0)
  | slots, count + 1 =>
      if key (slots count) < bound then (slots, count + 1)
      else shift bound (Function.update slots (count + 1) (slots count)) count

/-- Put an entry into a sorted table. -/
def insert (slots : Nat → Entry) (count : Nat) (entry : Entry) : Nat → Entry :=
  let shifted := shift key (key entry) slots count
  Function.update shifted.1 shifted.2 entry

/-- Move the entries behind a slot down. -/
def remove (slots : Nat → Entry) (count place : Nat) : Nat → Entry := fun other =>
  if place ≤ other ∧ other + 1 < count then slots (other + 1) else slots other

variable {key} {slots : Nat → Entry} {count place : Nat} {entry other : Entry} {bound : Key}

theorem Sorted.injective (sorted : Sorted key slots count) {one other : Nat} (here : one < count)
    (there : other < count) (same : key (slots one) = key (slots other)) : one = other := by
  rcases Nat.lt_trichotomy one other with lower | equal | higher
  · exact absurd same (ne_of_lt (sorted one other lower there))
  · exact equal
  · exact absurd same.symm (ne_of_lt (sorted other one higher here))

theorem shift_beyond (beyond : count < place) :
    (shift key bound slots count).1 place = slots place := by
  induction count generalizing slots with
  | zero => rfl
  | succ count hypothesis =>
    rw [shift]
    split
    · rfl
    · rw [hypothesis (Nat.lt_of_succ_lt beyond), Function.update_of_ne (Nat.ne_of_gt beyond)]

section

variable (sorted : Sorted key slots count)
include sorted

/-- What shifting does: the free slot comes after the lower keys, and the others are behind it. -/
theorem shift_spec : (shift key bound slots count).2 ≤ count ∧
      (∀ place < (shift key bound slots count).2,
        (shift key bound slots count).1 place = slots place ∧ key (slots place) < bound) ∧
      ∀ place, (shift key bound slots count).2 ≤ place → place < count →
        (shift key bound slots count).1 (place + 1) = slots place ∧
          ¬ key (slots place) < bound := by
  induction count generalizing slots with
  | zero =>
    exact ⟨Nat.le_refl _, fun place below => absurd below (Nat.not_lt_zero place),
      fun place _ below => absurd below (Nat.not_lt_zero place)⟩
  | succ count hypothesis =>
    rw [shift]
    split
    · next lower =>
      refine ⟨Nat.le_refl _, fun place below => ⟨rfl, ?_⟩, fun place free below =>
        absurd below (Nat.not_lt_of_le free)⟩
      rcases Nat.lt_succ_iff_lt_or_eq.mp below with before | rfl
      · exact lt_trans (sorted place count before (Nat.lt_succ_self count)) lower
      · exact lower
    · next higher =>
      have same (place : Nat) (inside : place < count + 1) :
          Function.update slots (count + 1) (slots count) place = slots place :=
        Function.update_of_ne (Nat.ne_of_lt inside) _ _
      have sorted' : Sorted key (Function.update slots (count + 1) (slots count)) count := by
        intro one other ordered inside
        rw [same one (by omega), same other (by omega)]
        exact sorted one other ordered (Nat.lt_succ_of_lt inside)
      obtain ⟨bounded, before, after⟩ := @hypothesis _ sorted'
      refine ⟨Nat.le_succ_of_le bounded, fun place below => ?_, fun place free below => ?_⟩
      · have here := before place below
        rwa [same place (by omega)] at here
      · rcases Nat.lt_succ_iff_lt_or_eq.mp below with inside | rfl
        · have here := after place free inside
          rwa [same place below] at here
        · refine ⟨?_, higher⟩
          rw [shift_beyond (Nat.lt_succ_self place), Function.update_self]

theorem Sorted.insert (new : ∀ place < count, key (slots place) ≠ key entry) :
    Sorted key (insert key slots count entry) (count + 1) ∧
      ∀ other, Holds (insert key slots count entry) (count + 1) other ↔
        other = entry ∨ Holds slots count other := by
  obtain ⟨bounded, before, after⟩ := @shift_spec _ _ _ _ _ count (key entry) sorted
  have shifted : SortedTable.insert key slots count entry =
      Function.update (shift key (key entry) slots count).1
        (shift key (key entry) slots count).2 entry := rfl
  generalize (shift key (key entry) slots count).2 = free at bounded before after shifted
  have at_ (place : Nat) (inside : place < count + 1) :
      SortedTable.insert key slots count entry place =
        if place < free then slots place else if place = free then entry
          else slots (place - 1) := by
    rw [shifted]
    split
    · next below =>
      rw [Function.update_of_ne (Nat.ne_of_lt below), (before place below).1]
    next reached =>
    split
    · next here => rw [here, Function.update_self]
    next other =>
    rw [Function.update_of_ne other]
    have moved_ := (after (place - 1) (by omega) (by omega)).1
    rwa [Nat.sub_add_cancel (by omega)] at moved_
  have above (place : Nat) (reached : free ≤ place) (inside : place < count) :
      key entry < key (slots place) :=
    lt_of_le_of_ne (not_lt.mp (after place reached inside).2) (new place inside).symm
  refine ⟨fun one other ordered inside => ?_, fun other => ⟨?_, ?_⟩⟩
  · rw [at_ one (by omega), at_ other inside]
    rcases Nat.lt_trichotomy other free with below | rfl | beyond
    · rw [if_pos below, if_pos (by omega)]
      exact sorted one other ordered (by omega)
    · rw [if_pos ordered, if_neg (Nat.lt_irrefl other), if_pos rfl]
      exact (before one ordered).2
    · have behind : ¬ other < free := Nat.not_lt_of_gt beyond
      have apart : other ≠ free := Nat.ne_of_gt beyond
      rw [if_neg behind, if_neg apart]
      rcases Nat.lt_trichotomy one free with below | rfl | behind
      · rw [if_pos below]
        exact lt_trans (before one below).2 (above (other - 1) (by omega) (by omega))
      · rw [if_neg (Nat.lt_irrefl one), if_pos rfl]
        exact above (other - 1) (by omega) (by omega)
      · rw [if_neg (by omega), if_neg (by omega)]
        exact sorted (one - 1) (other - 1) (by omega) (by omega)
  · rintro ⟨place, inside, rfl⟩
    rw [at_ place inside]
    split
    · exact Or.inr ⟨place, by omega, rfl⟩
    · split
      · exact Or.inl rfl
      · exact Or.inr ⟨place - 1, by omega, rfl⟩
  · rintro (rfl | ⟨place, inside, rfl⟩)
    · refine ⟨free, by omega, ?_⟩
      rw [at_ free (by omega), if_neg (Nat.lt_irrefl free), if_pos rfl]
    · by_cases below : place < free
      · refine ⟨place, by omega, ?_⟩
        rw [at_ place (by omega), if_pos below]
      · refine ⟨place + 1, by omega, ?_⟩
        rw [at_ (place + 1) (by omega), if_neg (by omega), if_neg (by omega), Nat.add_sub_cancel]

theorem Sorted.remove (inside : place < count) : Sorted key (remove slots count place) (count - 1) ∧
      ∀ other, Holds (remove slots count place) (count - 1) other ↔
        Holds slots count other ∧ key other ≠ key (slots place) := by
  have at_ (other : Nat) (below : other < count - 1) : SortedTable.remove slots count place other =
        slots (if place ≤ other then other + 1 else other) := by
    rw [SortedTable.remove]
    by_cases behind : place ≤ other
    · rw [if_pos ⟨behind, by omega⟩, if_pos behind]
    · rw [if_neg fun both => behind both.1, if_neg behind]
  refine ⟨fun one other ordered below => ?_, fun other => ⟨?_, ?_⟩⟩
  · rw [at_ one (by omega), at_ other below]
    refine sorted _ _ ?_ ?_
    · split
      · rw [if_pos (by omega)]
        omega
      · split
        · omega
        · exact ordered
    · split
      · omega
      · omega
  · rintro ⟨one, below, rfl⟩
    rw [at_ one below]
    refine ⟨⟨_, ?_, rfl⟩, fun same => ?_⟩
    · split
      · omega
      · omega
    · have here := sorted.injective (by split <;> omega) inside same
      split at here
      · omega
      · omega
  · rintro ⟨⟨one, below, rfl⟩, different⟩
    have apart : one ≠ place := fun same => different (same ▸ rfl)
    by_cases before : one < place
    · refine ⟨one, by omega, ?_⟩
      rw [at_ one (by omega), if_neg (by omega)]
    · refine ⟨one - 1, by omega, ?_⟩
      rw [at_ (one - 1) (by omega), if_pos (by omega), Nat.sub_add_cancel (by omega)]

theorem Sorted.update (inside : place < count) (same : key entry = key (slots place)) :
    Sorted key (Function.update slots place entry) count ∧
      ∀ other, Holds (Function.update slots place entry) count other ↔
        other = entry ∨ Holds slots count other ∧ key other ≠ key entry := by
  have kept (one : Nat) : key (Function.update slots place entry one) = key (slots one) := by
    by_cases here : one = place
    · rw [here, Function.update_self, same]
    · rw [Function.update_of_ne here]
  refine ⟨fun one other ordered below => ?_, fun other => ⟨?_, ?_⟩⟩
  · rw [kept, kept]
    exact sorted one other ordered below
  · rintro ⟨one, below, rfl⟩
    by_cases here : one = place
    · rw [here, Function.update_self]
      exact Or.inl rfl
    · rw [Function.update_of_ne here]
      refine Or.inr ⟨⟨one, below, rfl⟩, fun equal => here ?_⟩
      exact sorted.injective below inside (equal.trans same)
  · rintro (rfl | ⟨⟨one, below, rfl⟩, different⟩)
    · exact ⟨place, inside, Function.update_self _ _ _⟩
    · refine ⟨one, below, Function.update_of_ne ?_ _ _⟩
      rintro rfl
      exact different same.symm

theorem Sorted.congr {slots' : Nat → Entry} (same : ∀ place < count, slots' place = slots place) :
    Sorted key slots' count ∧
      ∀ other, Holds slots' count other ↔ Holds slots count other := by
  refine ⟨fun one other ordered below => ?_, fun other => ⟨?_, ?_⟩⟩
  · rw [same one (Nat.lt_trans ordered below), same other below]
    exact sorted one other ordered below
  · rintro ⟨place, below, rfl⟩
    exact ⟨place, below, (same place below).symm⟩
  · rintro ⟨place, below, rfl⟩
    exact ⟨place, below, same place below⟩

theorem Sorted.bisect_eq_some {test : Entry → Bool}
    {bound : Key} (inside : place < count) (same : key (slots place) = bound)
    (met : test (slots place) = true) :
    bisect (fun other => decide (key (slots other) = bound) && test (slots other))
      (fun other => key (slots other) < bound) count 0 (count - 1) = some place := by
  refine SortedTable.bisect_eq_some (Int.le_refl 0) (by omega) (by omega) (by omega) ?_
    (fun other below => ?_) fun other beyond under => ?_
  · rw [met, decide_eq_true same]
    rfl
  · have lower := sorted other place below inside
    rw [same] at lower
    exact ⟨by rw [decide_eq_false (ne_of_lt lower)]; rfl, decide_eq_true lower⟩
  · have higher := sorted place other beyond (by omega)
    rw [same] at higher
    exact ⟨by rw [decide_eq_false (ne_of_gt higher)]; rfl, decide_eq_false (lt_asymm higher)⟩

end

end Tables

end TowerSafe.Library.SortedTable
