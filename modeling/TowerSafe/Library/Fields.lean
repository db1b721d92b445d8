/-
This file is a small library of records that are laid out as byte strings, one field behind the
other. A field is found again where the fields before it end, and a number that fits is read as it
was written.
-/

import TowerSafe.Library.Bytes

namespace TowerSafe.Library.Bytes

open List

/-- The number in some bytes from a place on. -/
def number (bits : Nat) (bytes : Bytes) (start width : Nat) : BitVec bits :=
  .ofNat bits (toNat (slice bytes start width))

theorem ofNat_append (first second value : Nat) :
    ofNat first value ++ ofNat second (value / 256 ^ first) = ofNat (first + second) value := by
  induction first generalizing value with
  | zero => rw [ofNat, nil_append, Nat.pow_zero, Nat.div_one, Nat.zero_add]
  | succ first hypothesis =>
    rw [Nat.succ_add first second, ofNat, ofNat, cons_append, Nat.pow_succ', ←
      Nat.div_div_eq_div_mul, hypothesis]

theorem ofNat_mod (width value : Nat) : ofNat width (value % 256 ^ width) = ofNat width value := by
  induction width generalizing value with
  | zero => rfl
  | succ width hypothesis =>
    have low : BitVec.ofNat 8 (value % 256 ^ (width + 1)) = BitVec.ofNat 8 value := by
      refine BitVec.eq_of_toNat_eq ?_
      rw [Nat.pow_succ']
      exact Nat.mod_mul_right_mod value 256 _
    rw [ofNat, ofNat, low, Nat.pow_succ', Nat.mod_mul_right_div_self, hypothesis]

theorem overwrite_behind (before behind source : Bytes) :
    overwrite (before ++ behind) before.length source =
      before ++ (source ++ behind.drop source.length) := by
  rw [overwrite, take_left, drop_length_add_append, append_assoc]

theorem slice_append (before part after : Bytes) :
    slice (before ++ (part ++ after)) before.length part.length = part := by
  rw [slice, drop_left, take_left]

theorem slice_flatten (fields : List Bytes) (after : Bytes) (place : Nat)
    (inside : place < fields.length) :
    slice (fields.flatten ++ after) (fields.take place).flatten.length fields[place].length =
      fields[place] := by
  have whole : fields.flatten =
      (fields.take place).flatten ++ (fields[place] ++ (fields.drop (place + 1)).flatten) := by
    rw [← flatten_cons, cons_getElem_drop_succ, ← flatten_append,
      take_append_drop]
  conv_lhs => rw [whole]
  rw [append_assoc, append_assoc]
  exact slice_append _ _ _

theorem number_eq {bits start width : Nat} {bytes : Bytes} {value : BitVec bits}
    (same : slice bytes start width = ofNat width value.toNat) (fits : bits ≤ 8 * width) :
    number bits bytes start width = value := by
  refine BitVec.eq_of_toNat_eq ?_
  have small : value.toNat < 256 ^ width := Nat.lt_of_lt_of_le value.isLt (by
      have power : 256 ^ width = 2 ^ (8 * width) := (Nat.pow_mul 2 8 width).symm
      rw [power]
      exact Nat.pow_le_pow_right Nat.two_pos fits)
  rw [number, same, toNat_ofNat width _ small, BitVec.toNat_ofNat, Nat.mod_eq_of_lt value.isLt]

theorem number_slice {bits place part width : Nat} (bytes : Bytes) (start : Nat)
    (inside : place + part ≤ width) :
    number bits (slice bytes start width) place part = number bits bytes (start + place) part := by
  rw [number, number, slice_slice bytes start inside]

end TowerSafe.Library.Bytes
