/-
This file is a small library of ring buffers whose indexes grow without end: the entries between two
indexes, each read from the slot that its index comes to. The rules say what writing a slot, adding
an entry and taking one do to the entries, as long as there are no more of them than slots.
-/

import Mathlib.Data.List.Basic
import Mathlib.Data.Nat.ModEq
import Mathlib.Logic.Function.Basic

namespace TowerSafe.Library.Ring

open List

variable {Entry : Type}

/-- The entries of a number of indexes from a start on. -/
def contents (size : Nat) (slots : Nat → Entry) (start count : Nat) : List Entry :=
  (List.range count).map fun place => slots ((start + place) % size)

variable {size start count place : Nat} {slots : Nat → Entry}

@[simp]
theorem length_contents : (contents size slots start count).length = count := by
  rw [contents, length_map, length_range]

@[simp]
theorem contents_zero : contents size slots start 0 = [] := rfl

theorem getElem?_contents : (contents size slots start count)[place]? =
      if place < count then some (slots ((start + place) % size)) else none := by
  rw [contents, List.getElem?_map]
  split
  · next below => rw [List.getElem?_range below, Option.map_some]
  · next beyond =>
    rw [List.getElem?_eq_none (by rw [length_range]; exact Nat.le_of_not_lt beyond)]
    rfl

theorem slot_injective {one other : Nat} (oneBelow : one < size) (otherBelow : other < size)
    (same : (start + one) % size = (start + other) % size) : one = other :=
  Nat.ModEq.eq_of_lt_of_lt (Nat.ModEq.add_left_cancel' start same) oneBelow otherBelow

theorem contents_succ : contents size slots start (count + 1) =
      contents size slots start count ++ [slots ((start + count) % size)] := by
  rw [contents, range_succ, map_append]
  rfl

theorem contents_cons : contents size slots start (count + 1) =
      slots (start % size) :: contents size slots (start + 1) count := by
  rw [contents, range_succ_eq_map, map_cons, map_map]
  refine congrArg₂ _ rfl (map_congr_left fun place _ => ?_)
  rw [Function.comp_apply, Nat.add_assoc, Nat.add_comm 1]

theorem contents_update (bounded : count ≤ size) (inside : place < count) (entry : Entry) :
    contents size (Function.update slots ((start + place) % size) entry) start count =
      (contents size slots start count).set place entry := by
  refine ext_getElem? fun other => ?_
  rw [List.getElem?_set, length_contents, getElem?_contents, getElem?_contents]
  by_cases same : place = other
  · rw [if_pos same, ← same, if_pos inside, if_pos inside, Function.update_self]
  rw [if_neg same]
  by_cases below : other < count
  · have apart : (start + other) % size ≠ (start + place) % size := fun slot =>
      same (slot_injective (Nat.lt_of_lt_of_le below bounded)
        (Nat.lt_of_lt_of_le inside bounded) slot).symm
    rw [Function.update_of_ne apart, if_pos below]
  · rw [if_neg below, if_neg below]

theorem contents_update_beyond (bounded : count ≤ place) (inside : place < size) (entry : Entry) :
    contents size (Function.update slots ((start + place) % size) entry) start count =
      contents size slots start count := by
  refine map_congr_left fun other member => ?_
  have below : other < count := mem_range.mp member
  have apart : (start + other) % size ≠ (start + place) % size := fun same =>
    Nat.ne_of_lt (Nat.lt_of_lt_of_le below bounded)
      (slot_injective (Nat.lt_trans (Nat.lt_of_lt_of_le below bounded) inside) inside same)
  exact Function.update_of_ne apart entry slots

theorem contents_add (more : Nat) : contents size slots start (count + more) =
      contents size slots start count ++ contents size slots (start + count) more := by
  induction more with
  | zero => rw [Nat.add_zero, contents_zero, append_nil]
  | succ more hypothesis =>
    rw [← Nat.add_assoc, contents_succ, hypothesis, contents_succ, append_assoc,
      Nat.add_assoc start]

theorem contents_push (room : count < size) (entry : Entry) :
    contents size (Function.update slots ((start + count) % size) entry) start (count + 1) =
      contents size slots start count ++ [entry] := by
  rw [contents_succ, contents_update_beyond le_rfl room, Function.update_self]

theorem contents_pop (room : count < size) (entry : Entry) :
    contents size (Function.update slots (start % size) entry) (start + 1) count =
      contents size slots (start + 1) count := by
  have written : contents size (Function.update slots ((start + 0) % size) entry) start
      (count + 1) = (contents size slots start (count + 1)).set 0 entry :=
    contents_update (Nat.succ_le_of_lt room) (Nat.succ_pos count) entry
  rw [contents_cons, contents_cons, set_cons_zero, List.cons.injEq] at written
  exact written.2

end TowerSafe.Library.Ring
