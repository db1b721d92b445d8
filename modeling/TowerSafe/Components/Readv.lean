/-
This file embeds the scattered reading of `readv` and says exactly when it does what one read into a
contiguous buffer does. An error of the read is not told apart from a length, so the buffer is
copied to the vectors all the same, and an empty vector that is reached is an error of `memcpy_s`.
-/

import Mathlib
import TowerSafe.Hdf.Sbuf

namespace TowerSafe.Readv

open Library List
open Sbuf (memcpyS securecMemMaxLen)

def iovMaxCnt : Nat := 4

/-- `SSIZE_MAX` of a target of 32 bits. -/
def ssizeMax : Nat := 2 ^ 31 - 1

def losNok : Int := -1

/-- What a read of so many bytes returns, or that it fails, and what is in the buffer then: what was
allocated, and what the driver has written. -/
structure Outcome (bytes : Nat) where
  count : Option Nat
  buf : Bytes
  whole : buf.length = bytes

def Outcome.ret {bytes : Nat} (outcome : Outcome bytes) : Int :=
  match outcome.count with
  | none => -1
  | some count => count

/-- The sum of the lengths, with the check that it fits. -/
def sumLen : List Bytes → Nat → Option Nat
  | [], bufLen => some bufLen
  | base :: rest, bufLen =>
    if ssizeMax - bufLen < base.length then none else sumLen rest (bufLen + base.length)

/-- The copy loop, into the buffers of the vectors, and whether it is not left with an error. -/
def scatter : List Bytes → Bytes → Nat → List Bytes × Bool
  | [], _, _ => ([], true)
  | base :: rest, curBuf, totalLen =>
    let lenToRead := if totalLen < base.length then totalLen else base.length
    match memcpyS base 0 base.length curBuf lenToRead with
    | (copied, false) => (copied :: rest, false)
    | (copied, true) =>
      if totalLen < base.length then (copied :: rest, true)
      else
        let (behind, done) := scatter rest (curBuf.drop base.length) (totalLen - base.length)
        (copied :: behind, done)

/-- `readv` with the buffers of the vectors, and whether the allocation succeeds. The error of a
read is, as a size, greater than every length. -/
def readv (iov : List Bytes) (granted : Bool) (outcome : Outcome iov.flatten.length) :
    Int × List Bytes :=
  if iov.length = 0 ∨ iovMaxCnt < iov.length then (losNok, iov)
  else
    match sumLen iov 0 with
    | none => (losNok, iov)
    | some bufLen =>
      if bufLen = 0 then (losNok, iov)
      else if granted = false then (losNok, iov)
      else
        let totalLen := (outcome.count.map (min bufLen)).getD bufLen
        match scatter iov outcome.buf totalLen with
        | (copied, false) => (losNok, copied)
        | (copied, true) => (outcome.ret, copied)

/-- The result of one read, and its bytes in the vectors in order; and the vectors as they were if
it fails. -/
def Scattered (iov : List Bytes) (outcome : Outcome iov.flatten.length)
    (result : Int × List Bytes) : Prop :=
  result.1 = outcome.ret ∧
    match outcome.count with
    | none => result.2 = iov
    | some count => result.2.map List.length = iov.map List.length ∧
      result.2.flatten = outcome.buf.take count ++ iov.flatten.drop count

section

variable {iov : List Bytes} {base buf : Bytes} {totalLen : Nat}

theorem sumLen_eq (bufLen : Nat) (fits : bufLen ≤ ssizeMax) :
    sumLen iov bufLen =
      if bufLen + iov.flatten.length ≤ ssizeMax then some (bufLen + iov.flatten.length)
      else none := by
  induction iov generalizing bufLen with
  | nil => simp [sumLen, fits]
  | cons base rest hypothesis =>
    rw [sumLen, flatten_cons, length_append, ← Nat.add_assoc]
    split
    · rw [if_neg (by omega)]
    · exact hypothesis _ (by omega)

theorem scatter_cons (some_ : base ≠ []) (small : base.length ≤ securecMemMaxLen)
    (has : totalLen ≤ buf.length) :
    scatter (base :: iov) buf totalLen =
      if totalLen < base.length then ((buf.take totalLen ++ base.drop totalLen) :: iov, true)
      else
        (buf.take base.length ::
            (scatter iov (buf.drop base.length) (totalLen - base.length)).1,
          (scatter iov (buf.drop base.length) (totalLen - base.length)).2) := by
  have positive := length_pos_iff.mpr some_
  rw [scatter]
  by_cases short : totalLen < base.length
  · simp only [if_pos short]
    rw [memcpyS, if_neg (by omega), if_neg (by omega), Bytes.overwrite, take_zero,
      nil_append, Nat.zero_add, length_take_of_le has]
  · simp only [if_neg short]
    rw [memcpyS, if_neg (by omega), if_neg (by omega), Bytes.overwrite, take_zero,
      nil_append, Nat.zero_add, length_take_of_le (by omega), drop_length,
      append_nil]

theorem scatter_nil_cons : scatter ([] :: iov) buf totalLen = ([] :: iov, false) := by
  simp [scatter, memcpyS]

section

variable (small : iov.flatten.length ≤ securecMemMaxLen)
include small

/-- The copy loop is left with an error just if it comes to an empty vector. -/
theorem scatter_done_iff
    (has : totalLen ≤ buf.length) :
    (scatter iov buf totalLen).2 = true ↔
      ∀ front back, iov = front ++ [] :: back → totalLen < front.flatten.length := by
  induction iov generalizing buf totalLen with
  | nil => exact iff_of_true rfl fun front back is => by simp at is
  | cons base rest hypothesis =>
    by_cases empty : base = []
    · subst empty
      exact iff_of_false nofun fun all => absurd (all [] rest rfl) (Nat.not_lt_zero _)
    · rw [flatten_cons, length_append] at small
      rw [scatter_cons empty (by omega) has]
      have behind : (∀ front back, base :: rest = front ++ [] :: back →
          totalLen < front.flatten.length) ↔ ∀ front back, rest = front ++ [] :: back →
            totalLen < base.length + front.flatten.length := by
        refine ⟨fun all front back is => ?_, fun all front back is => ?_⟩
        · have := all (base :: front) back (by rw [is]; rfl)
          rwa [flatten_cons, length_append] at this
        · rcases cons_eq_append_iff.mp is with ⟨-, same⟩ | ⟨front, rfl, behind⟩
          · exact absurd (List.cons.inj same).1.symm empty
          · rw [flatten_cons, length_append]
            exact all front back behind
      rw [behind]
      split
      · exact iff_of_true rfl fun front back _ => by omega
      · rw [hypothesis (by omega) (by rw [length_drop]; omega)]
        refine forall₃_congr fun front back _ => ?_
        omega

theorem scatter_flatten
    (has : totalLen ≤ buf.length) (fits : totalLen ≤ iov.flatten.length)
    (done : (scatter iov buf totalLen).2 = true) :
    (scatter iov buf totalLen).1.map List.length = iov.map List.length ∧
      (scatter iov buf totalLen).1.flatten =
        buf.take totalLen ++ iov.flatten.drop totalLen := by
  induction iov generalizing buf totalLen with
  | nil =>
    rw [Nat.le_zero.mp fits]
    exact ⟨rfl, rfl⟩
  | cons base rest hypothesis =>
    by_cases empty : base = []
    · subst empty
      cases done
    · rw [flatten_cons, length_append] at small fits
      rw [scatter_cons empty (by omega) has] at done ⊢
      split at done
      · rename_i short
        rw [if_pos short, flatten_cons, flatten_cons,
          drop_append_of_le_length short.le, append_assoc]
        exact ⟨by simp; omega, rfl⟩
      · rename_i long
        obtain ⟨lengths, bytes⟩ := hypothesis (by omega) (by rw [length_drop]; omega)
          (by omega) done
        have whole : totalLen = base.length + (totalLen - base.length) := by omega
        rw [if_neg long, map_cons, flatten_cons, flatten_cons, lengths, bytes,
          length_take_of_le (by omega), ← append_assoc, ← take_add, ← whole,
          drop_append, show base.drop totalLen = [] from drop_eq_nil_of_le (by omega)]
        exact ⟨rfl, rfl⟩

/-- A copy loop for all lengths leaves the vectors as they are just if the buffer has their bytes.
-/
theorem scatter_eq_self_iff
    (has : iov.flatten.length ≤ buf.length) :
    (scatter iov buf iov.flatten.length).1 = iov ↔ (iov.takeWhile (· ≠ [])).flatten =
      buf.take (iov.takeWhile (· ≠ [])).flatten.length := by
  induction iov generalizing buf with
  | nil => simp [scatter]
  | cons base rest hypothesis =>
    by_cases empty : base = []
    · subst empty
      rw [scatter_nil_cons]
      simp
    · rw [flatten_cons, length_append] at small has ⊢
      rw [scatter_cons empty (by omega) has, if_neg (by omega), Nat.add_sub_cancel_left,
        takeWhile_cons_of_pos (by simpa using empty), flatten_cons, length_append,
        take_add, List.cons.injEq,
        hypothesis (by omega) (by rw [length_drop]; omega)]
      have length : base.length = (buf.take base.length).length := by
        rw [length_take_of_le (by omega)]
      exact ⟨fun both => congrArg₂ _ both.1.symm both.2, fun same =>
        (append_inj same length).imp_left Eq.symm⟩

end

/-- A vectored read is right just if it is refused for a read that fails; or the read fails, and
what was allocated is what the vectors before an empty one are; or it reads less than would lead to
an empty vector. -/
theorem readv_iff (iov : List Bytes) (granted : Bool) (outcome : Outcome iov.flatten.length) :
    Scattered iov outcome (readv iov granted outcome) ↔
      if iov.length = 0 ∨ iovMaxCnt < iov.length ∨ iov.flatten.length = 0 ∨
          ssizeMax < iov.flatten.length ∨ granted = false then outcome.count = none
      else
        match outcome.count with
        | none => (iov.takeWhile (· ≠ [])).flatten =
          outcome.buf.take (iov.takeWhile (· ≠ [])).flatten.length
        | some count => ∀ front back, iov = front ++ [] :: back →
          count < front.flatten.length := by
  have refused : Scattered iov outcome (losNok, iov) ↔ outcome.count = none := by
    rw [Scattered, Outcome.ret]
    cases outcome.count with
    | none => exact iff_of_true ⟨rfl, rfl⟩ rfl
    | some count => exact iff_of_false (fun right => nomatch right.1) nofun
  rw [readv, sumLen_eq 0 (Nat.zero_le _), Nat.zero_add]
  by_cases many : iov.length = 0 ∨ iovMaxCnt < iov.length
  · rw [if_pos many, if_pos (or_assoc.mp (.inl many)), refused]
  by_cases long : ssizeMax < iov.flatten.length
  · rw [if_neg many, if_neg (Nat.not_le.mpr long), if_pos (by tauto)]
    exact refused
  rw [if_neg many, if_pos (Nat.not_lt.mp long)]
  dsimp only
  by_cases none_ : iov.flatten.length = 0
  · rw [if_pos none_, if_pos (by tauto), refused]
  cases granted with
  | false => rw [if_neg none_, if_pos rfl, if_pos (by tauto), refused]
  | true =>
    have small : iov.flatten.length ≤ securecMemMaxLen := Nat.not_lt.mp long
    have granted : ¬true = false := nofun
    rw [if_neg none_, if_neg granted, if_neg (by tauto), Scattered, Outcome.ret]
    cases outcome.count with
    | none =>
      have copied := @scatter_eq_self_iff iov outcome.buf small outcome.whole.ge
      dsimp only [Option.map_none, Option.getD_none] at copied ⊢
      rw [← copied]
      generalize scatter iov outcome.buf _ = result
      obtain ⟨vectors, done⟩ := result
      cases done <;> exact and_iff_right rfl
    | some count =>
      have fewer : min iov.flatten.length count ≤ iov.flatten.length := Nat.min_le_left _ _
      have done := scatter_done_iff small (fewer.trans outcome.whole.ge)
      have bytes := scatter_flatten small (fewer.trans outcome.whole.ge) fewer
      have less : (∀ front back, iov = front ++ [] :: back →
          min iov.flatten.length count < front.flatten.length) ↔
          ∀ front back, iov = front ++ [] :: back → count < front.flatten.length := by
        refine forall₃_congr fun front back is => ?_
        have inside : front.flatten.length ≤ iov.flatten.length := by simp [is]
        omega
      rw [less] at done
      dsimp only [Option.map_some, Option.getD_some] at done bytes ⊢
      rw [← done]
      generalize scatter iov outcome.buf _ = result at bytes
      obtain ⟨vectors, ended⟩ := result
      cases ended with
      | false => exact iff_of_false (fun right => nomatch right.1) nofun
      | true =>
        obtain ⟨lengths, bytes⟩ := bytes rfl
        refine iff_of_true ⟨rfl, lengths, bytes.trans ?_⟩ rfl
        rcases Nat.le_total count iov.flatten.length with few | most
        · rw [Nat.min_eq_right few]
        · rw [Nat.min_eq_left most, List.take_of_length_le outcome.whole.le,
            List.take_of_length_le (outcome.whole.trans_le most), List.drop_length,
            List.drop_eq_nil_of_le most]

end

def vectors : List Bytes := [[1], [2]]

/-- A read that fails overwrites the vectors, and an empty vector before the end of the data makes
the call fail after its read. -/
theorem readv_not_scattered :
    ¬Scattered vectors ⟨none, [0, 0], rfl⟩ (readv vectors true ⟨none, [0, 0], rfl⟩) ∧
      ¬Scattered [[1], [], [2]] ⟨some 2, [0, 0], rfl⟩
        (readv [[1], [], [2]] true ⟨some 2, [0, 0], rfl⟩) := by
  refine ⟨fun right => ?_, fun right => ?_⟩
  · exact absurd right.2 (by decide)
  · exact absurd right.1 (by decide)

end TowerSafe.Readv
