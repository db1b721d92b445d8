/-
This file is a small library of functions that are computed block by block. What is left behind the
last whole block is kept until more bytes come, so that bytes in several pieces are taken in as
they are at once.
-/

import TowerSafe.Library.Bytes

namespace TowerSafe.Library.Blocks

open List

variable {State : Type} (size : Nat) (process : State → Bytes → State)

/-- Take in some blocks, one after the other. -/
def run : Nat → State → Bytes → State
  | 0, state, _ => state
  | count + 1, state, bytes =>
      run count (process state (bytes.take size)) (bytes.drop size)

/-- Take in all the whole blocks: the state behind them, and what is left. -/
def absorb (state : State) (bytes : Bytes) : State × Bytes :=
  (run size process (bytes.length / size) state bytes,
    bytes.drop (size * (bytes.length / size)))

theorem run_append (count : Nat) (state : State) (bytes after : Bytes)
    (inside : size * count ≤ bytes.length) :
    run size process count state (bytes ++ after) = run size process count state bytes := by
  induction count generalizing state bytes with
  | zero => rfl
  | succ count hypothesis =>
    rw [Nat.mul_succ] at inside
    rw [run, take_append_of_le_length (by omega), drop_append_of_le_length (by omega)]
    exact hypothesis _ _ (by rw [length_drop]; omega)

theorem run_add (first second : Nat) (state : State) (bytes : Bytes) :
    run size process (first + second) state bytes =
      run size process second (run size process first state bytes) (bytes.drop (size * first)) := by
  induction first generalizing state bytes with
  | zero => rw [Nat.zero_add, Nat.mul_zero, drop_zero, run]
  | succ first hypothesis =>
    rw [Nat.succ_add first second, run, hypothesis, run,
      drop_drop, Nat.mul_succ, Nat.add_comm size]

theorem length_absorb (state : State) (bytes : Bytes) :
    (absorb size process state bytes).2.length = bytes.length % size := by
  rw [absorb, length_drop]
  exact (Nat.mod_eq_sub_mul_div).symm

theorem absorb_short {state : State} {bytes : Bytes} (short : bytes.length < size) :
    absorb size process state bytes = (state, bytes) := by
  rw [absorb, Nat.div_eq_of_lt short, Nat.mul_zero, drop_zero, run]

theorem absorb_append (some_ : 0 < size) (state : State) (first second : Bytes) :
    absorb size process state (first ++ second) =
      absorb size process (absorb size process state first).1
        ((absorb size process state first).2 ++ second) := by
  have whole := Nat.div_add_mod first.length size
  have inside : size * (first.length / size) ≤ first.length := by omega
  have kept : (absorb size process state first).2 = first.drop (size * (first.length / size)) := rfl
  have drop : (first ++ second).drop (size * (first.length / size)) =
      (absorb size process state first).2 ++ second := by
    rw [drop_append_of_le_length inside, kept]
  have count : (first ++ second).length / size = first.length / size +
      ((absorb size process state first).2 ++ second).length / size := by
    have total : first.length + second.length = first.length % size + second.length +
        size * (first.length / size) := by omega
    rw [length_append, length_append, length_absorb, total,
      Nat.add_mul_div_left _ _ some_, Nat.add_comm]
  refine Prod.ext ?_ ?_
  · rw [absorb, count]
    rw [run_add, drop, run_append size process _ _ _ _ inside]
    rfl
  · rw [absorb, count]
    rw [Nat.mul_add, ← drop_drop, drop]
    rfl

theorem absorb_block {state : State} {block rest : Bytes} (some_ : 0 < size)
    (whole : block.length = size) : absorb size process state (block ++ rest) =
      absorb size process (process state block) rest := by
  have one : absorb size process state block = (process state block, []) := by
    rw [absorb, whole, Nat.div_self some_, Nat.mul_one, run, run, ← whole, take_length,
      drop_length]
  rw [absorb_append size process some_, one, nil_append]

theorem run_map {Other : Type} {other : Other → Bytes → Other} (same : State → Other)
    (step : ∀ state block, block.length = size →
      same (process state block) = other (same state) block)
    {count : Nat} {state : State} {bytes : Bytes} (inside : size * count ≤ bytes.length) :
    same (run size process count state bytes) = run size other count (same state) bytes := by
  induction count generalizing state bytes with
  | zero => rfl
  | succ count hypothesis =>
    rw [Nat.mul_succ] at inside
    rw [run, run, hypothesis (by rw [length_drop]; omega),
      step _ _ (length_take_of_le (by omega))]

theorem absorb_map {Other : Type} {other : Other → Bytes → Other} (same : State → Other)
    (step : ∀ state block, block.length = size →
      same (process state block) = other (same state) block) (state : State) (bytes : Bytes) :
    same (absorb size process state bytes).1 = (absorb size other (same state) bytes).1 :=
  run_map size process same step (Nat.mul_div_le _ _)

end TowerSafe.Library.Blocks
