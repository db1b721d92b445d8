/-
This file is a small library of machine arithmetic that remembers: a computed value carries whether
each number on the way to it fit its type. The rules say when a computation yields a value of some
kind without any number wrapping, one step at a time.
-/

import Mathlib

namespace TowerSafe.Library

/-- A value, with whether each number that was computed on the way fit its type. -/
structure Computed (Value : Type) where
  value : Value
  fits : Bool

namespace Computed

variable {Value Next : Type}

instance : Monad Computed where
  pure value := ⟨value, true⟩
  bind computed next :=
    ⟨(next computed.value).value, computed.fits && (next computed.value).fits⟩

/-- A number in an unsigned type of some width. -/
def unsigned (width : Nat) (number : Int) : Computed Int :=
  ⟨number % 2 ^ width, decide (0 ≤ number ∧ number < 2 ^ width)⟩

/-- A number in a signed type of some width. -/
def signed (width : Nat) (number : Int) : Computed Int :=
  ⟨Int.bmod number (2 ^ width), decide (-2 ^ (width - 1) ≤ number ∧ number < 2 ^ (width - 1))⟩

/-- A loop of at most so many turns. One that does not end counts as one where a number does not
fit. -/
def whileLoop {State : Type} (turn : State → Option (Computed State)) : Nat → State → Computed State
  | 0, state => ⟨state, false⟩
  | fuel + 1, state =>
      match turn state with
      | none => pure state
      | some next => next >>= whileLoop turn fuel

/-- A computation yields a value of some kind, and nothing wraps. -/
structure Yields (computed : Computed Value) (kind : Value → Prop) : Prop where
  fits : computed.fits = true
  value : kind computed.value

variable {computed : Computed Value} {next : Value → Computed Next}

theorem value_bind : (computed >>= next).value = (next computed.value).value := rfl

theorem fits_bind : (computed >>= next).fits = (computed.fits && (next computed.value).fits) := rfl

variable {width : Nat} {number : Int}

theorem value_unsigned : (unsigned width number).value = number % 2 ^ width := rfl

theorem yields_true : (computed.Yields fun _ => True) ↔ computed.fits = true :=
  ⟨fun yields => yields.fits, fun fits => ⟨fits, trivial⟩⟩

theorem yields_pure {value : Value} {kind : Value → Prop} :
    (pure value : Computed Value).Yields kind ↔ kind value :=
  ⟨fun yields => yields.value, fun value => ⟨rfl, value⟩⟩

theorem yields_bind {kind : Next → Prop} : (computed >>= next).Yields kind ↔
      computed.Yields fun value => (next value).Yields kind := by
  refine ⟨fun ⟨fits, value⟩ => ?_, fun ⟨fits, yields⟩ => ⟨?_, yields.value⟩⟩
  · obtain ⟨first, second⟩ := (Bool.and_eq_true _ _).mp fits
    exact ⟨first, second, value⟩
  · exact (Bool.and_eq_true _ _).mpr ⟨fits, yields.fits⟩

theorem unsigned_of_fits (fits : 0 ≤ number ∧ number < 2 ^ width) :
    (unsigned width number).value = number :=
  Int.emod_eq_of_lt fits.1 fits.2

theorem signed_of_fits (fits : -2 ^ width ≤ number ∧ number < 2 ^ width) :
    (signed (width + 1) number).value = number := by
  have double : ((2 ^ (width + 1) : Nat) : Int) = 2 * 2 ^ width := by
    rw [Int.mul_comm]
    rfl
  exact Int.bmod_eq_of_le_mul_two (by omega) (by omega)

theorem yields_unsigned {kind : Int → Prop} : (unsigned width number).Yields kind ↔
      (0 ≤ number ∧ number < 2 ^ width) ∧ kind number := by
  refine ⟨fun ⟨fits, value⟩ => ?_, fun ⟨fits, value⟩ => ⟨decide_eq_true fits, ?_⟩⟩
  · have fits := of_decide_eq_true fits
    rw [unsigned_of_fits fits] at value
    exact ⟨fits, value⟩
  · rw [unsigned_of_fits fits]
    exact value

theorem yields_signed {kind : Int → Prop} : (signed (width + 1) number).Yields kind ↔
      (-2 ^ width ≤ number ∧ number < 2 ^ width) ∧ kind number := by
  refine ⟨fun ⟨fits, value⟩ => ?_, fun ⟨fits, value⟩ => ⟨decide_eq_true fits, ?_⟩⟩
  · have fits : -2 ^ width ≤ number ∧ number < 2 ^ width := of_decide_eq_true fits
    rw [signed_of_fits fits] at value
    exact ⟨fits, value⟩
  · rw [signed_of_fits fits]
    exact value

theorem yields_ite {condition : Prop} [Decidable condition] {first second : Computed Value}
    {kind : Value → Prop} : (if condition then first else second).Yields kind ↔
      if condition then first.Yields kind else second.Yields kind := by
  split
  · rfl
  · rfl

theorem Yields.mono {kind weaker : Value → Prop}
    (yields : computed.Yields kind) (imp : ∀ value, kind value → weaker value) :
    computed.Yields weaker :=
  ⟨yields.fits, imp _ yields.value⟩

theorem yields_whileLoop {State : Type} {turn : State → Option (Computed State)}
    {post : State → Prop} (holds : State → Prop) (measure : State → Nat)
    (last : ∀ state, holds state → turn state = none → post state)
    (again : ∀ state next, holds state → turn state = some next →
      next.Yields fun after => holds after ∧ measure after < measure state)
    {fuel : Nat} {state : State} (start : holds state) (enough : measure state < fuel) :
    (whileLoop turn fuel state).Yields post := by
  induction fuel generalizing state with
  | zero => exact absurd enough (Nat.not_lt_zero _)
  | succ fuel hypothesis =>
    rw [whileLoop]
    cases result : turn state with
    | none => exact yields_pure.mpr (last state start result)
    | some next =>
      refine yields_bind.mpr ((again state next start result).mono fun after kept => ?_)
      exact hypothesis kept.1 (kept.2.trans_le (Nat.le_of_lt_succ enough))

end Computed

end TowerSafe.Library
