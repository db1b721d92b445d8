/-
This file is a small library of texts that consist of words between separators: which words begin
with something, in terms of the places of the text where it stands.
-/

import Mathlib.Data.List.TakeWhile

namespace TowerSafe.Library

open List

variable {Letter : Type} {separates : Letter → Bool} {start text : List Letter}

/-- Something stands in a text with a separator before it, or at the start. -/
def Begins (separates : Letter → Bool) (before : List Letter) : Prop :=
  ∀ last ∈ before.getLast?, separates last = true

theorem begins_nil : Begins separates [] := fun _ no => by cases no

theorem begins_concat {before : List Letter} {last : Letter} :
    Begins separates (before ++ [last]) ↔ separates last = true := by
  unfold Begins
  rw [List.getLast?_concat]
  exact ⟨fun all => all last rfl, fun holds other same => Option.some.inj same ▸ holds⟩

theorem splitOnP_eq_cons (separates : Letter → Bool) (text : List Letter) :
    text.splitOnP separates =
      (text.takeWhile fun letter => !separates letter) :: (text.splitOnP separates).tail := by
  induction text with
  | nil => rfl
  | cons letter rest hypothesis =>
    rw [splitOnP_cons_eq_if_modifyHead, takeWhile_cons]
    cases isSeparator : separates letter with
    | true => rfl
    | false =>
      rw [hypothesis]
      rfl

section

variable (whole : ∀ letter ∈ start, separates letter = false)
include whole

/-- The first word begins with what the text begins with. -/
theorem append_eq_takeWhile_iff :
    (∃ rest, start ++ rest = text.takeWhile fun letter => !separates letter) ↔
      ∃ after, text = start ++ after := by
  refine ⟨fun ⟨rest, same⟩ => ?_, fun ⟨after, same⟩ => ?_⟩
  · obtain ⟨after, isText⟩ := List.takeWhile_prefix (l := text) fun letter => !separates letter
    exact ⟨rest ++ after, by rw [← isText, ← same, append_assoc]⟩
  · refine ⟨after.takeWhile fun letter => !separates letter, ?_⟩
    rw [same, takeWhile_append_of_pos fun letter member => ?_]
    rw [whole letter member]
    rfl

/-- The words but the first stand behind separators. -/
theorem mem_tail_splitOnP_iff :
    (∃ rest, start ++ rest ∈ (text.splitOnP separates).tail) ↔ ∃ before last after,
      text = before ++ last :: (start ++ after) ∧ separates last = true := by
  induction text with
  | nil =>
    refine iff_of_false (fun ⟨_, no⟩ => by cases no) fun ⟨before, last, after, same, _⟩ => ?_
    exact absurd same.symm (append_ne_nil_of_right_ne_nil _ (cons_ne_nil _ _))
  | cons letter rest hypothesis =>
    rw [splitOnP_cons_eq_if_modifyHead]
    cases isSeparator : separates letter with
    | true =>
      rw [splitOnP_eq_cons]
      refine ⟨fun ⟨others, member⟩ => ?_, fun ⟨before, last, after, same, isLast⟩ => ?_⟩
      · rcases mem_cons.mp member with first | later
        · obtain ⟨after, isRest⟩ := (append_eq_takeWhile_iff whole).mp ⟨others, first⟩
          exact ⟨[], letter, after, by rw [isRest]; rfl, isSeparator⟩
        · obtain ⟨before, last, after, isRest, isLast⟩ := hypothesis.mp ⟨others, later⟩
          exact ⟨letter :: before, last, after, by rw [isRest]; rfl, isLast⟩
      · cases before with
        | nil =>
          obtain ⟨-, isRest⟩ := List.cons.inj same
          obtain ⟨others, first⟩ := (append_eq_takeWhile_iff whole).mpr ⟨after, isRest⟩
          exact ⟨others, mem_cons.mpr (.inl first)⟩
        | cons first before =>
          obtain ⟨-, isRest⟩ := List.cons.inj same
          obtain ⟨others, later⟩ := hypothesis.mpr ⟨before, last, after, isRest, isLast⟩
          exact ⟨others, mem_cons.mpr (.inr later)⟩
    | false =>
      rw [if_neg Bool.false_ne_true]
      have same : ((rest.splitOnP separates).modifyHead (List.cons letter)).tail =
          (rest.splitOnP separates).tail := by
        rw [splitOnP_eq_cons]
        rfl
      rw [same, hypothesis]
      refine ⟨fun ⟨before, last, after, isRest, isLast⟩ =>
        ⟨letter :: before, last, after, by rw [isRest]; rfl, isLast⟩,
        fun ⟨before, last, after, same, isLast⟩ => ?_⟩
      cases before with
      | nil =>
        obtain ⟨rfl, -⟩ := List.cons.inj same
        rw [isSeparator] at isLast
        cases isLast
      | cons first before =>
        obtain ⟨-, isRest⟩ := List.cons.inj same
        exact ⟨before, last, after, isRest, isLast⟩

/-- A word begins with something where that stands at the start of the text or behind a
separator. -/
theorem mem_splitOnP_iff :
    (∃ rest, start ++ rest ∈ text.splitOnP separates) ↔ ∃ before after,
      text = before ++ (start ++ after) ∧ Begins separates before := by
  rw [splitOnP_eq_cons]
  refine ⟨fun ⟨rest, member⟩ => ?_, fun ⟨before, after, same, begins⟩ => ?_⟩
  · rcases mem_cons.mp member with first | later
    · obtain ⟨after, same⟩ := (append_eq_takeWhile_iff whole).mp ⟨rest, first⟩
      exact ⟨[], after, same, begins_nil⟩
    · obtain ⟨before, last, after, same, isLast⟩ := (mem_tail_splitOnP_iff whole).mp ⟨rest, later⟩
      exact ⟨before ++ [last], after, by rw [same, append_assoc]; rfl,
        begins_concat.mpr isLast⟩
  · rcases eq_nil_or_concat before with rfl | ⟨init, last, isBefore⟩
    · obtain ⟨rest, first⟩ := (append_eq_takeWhile_iff whole).mpr ⟨after, same⟩
      exact ⟨rest, mem_cons.mpr (.inl first)⟩
    rw [concat_eq_append] at isBefore
    rw [isBefore] at same begins
    rw [append_assoc] at same
    obtain ⟨rest, later⟩ := (mem_tail_splitOnP_iff whole).mpr
      ⟨init, last, after, same, begins_concat.mp begins⟩
    exact ⟨rest, mem_cons.mpr (.inr later)⟩

end

end TowerSafe.Library
