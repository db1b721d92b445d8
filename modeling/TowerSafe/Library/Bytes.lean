/-
This file is a small library of byte strings: numbers as bytes with the lowest first, and the
writing of bytes over others. What is written over a part of the same length takes its place, and a
number that was written is read again, whatever follows it.
-/

import Mathlib.Data.Nat.Bitwise
import Mathlib.Data.List.TakeDrop

namespace TowerSafe.Library

open List

abbrev Bytes := List (BitVec 8)

namespace Bytes

def ofNat : Nat → Nat → Bytes
  | 0, _ => []
  | width + 1, value => BitVec.ofNat 8 value :: ofNat width (value / 256)

def toNat : Bytes → Nat
  | [] => 0
  | byte :: rest => byte.toNat + 256 * toNat rest

theorem length_ofNat (width value : Nat) : (ofNat width value).length = width := by
  induction width generalizing value with
  | zero => rfl
  | succ width hypothesis => rw [ofNat, length_cons, hypothesis]

theorem toNat_ofNat (width value : Nat) (fits : value < 256 ^ width) :
    toNat (ofNat width value) = value := by
  induction width generalizing value with
  | zero =>
    rw [Nat.pow_zero, Nat.lt_one_iff] at fits
    rw [fits, ofNat, toNat]
  | succ width hypothesis =>
    rw [Nat.pow_succ, Nat.mul_comm] at fits
    have low : (BitVec.ofNat 8 value).toNat = value % 256 := rfl
    rw [ofNat, toNat, hypothesis _ (Nat.div_lt_of_lt_mul fits), low, Nat.mod_add_div]

theorem toNat_lt (bytes : Bytes) : toNat bytes < 256 ^ bytes.length := by
  induction bytes with
  | nil => exact Nat.one_pos
  | cons byte rest hypothesis =>
    rw [toNat, length_cons]
    omega

/-- The number at the start of some bytes, and the bytes behind it. -/
def read (width : Nat) (bytes : Bytes) : Nat × Bytes :=
  (toNat (bytes.take width), bytes.drop width)

theorem read_ofNat (width : Nat) {value : Nat} (fits : value < 256 ^ width) (rest : Bytes) :
    read width (ofNat width value ++ rest) = (value, rest) := by
  rw [read, take_left' (length_ofNat width value), toNat_ofNat width value fits,
    drop_left' (length_ofNat width value)]

theorem read_bitVec (width : Nat) (value : BitVec (8 * width)) (rest : Bytes) :
    read width (ofNat width value.toNat ++ rest) = (value.toNat, rest) := by
  refine read_ofNat width ?_ rest
  have fits := value.isLt
  rwa [Nat.pow_mul] at fits

/-- Some bytes are written over those from a place on. -/
def overwrite (bytes : Bytes) (start : Nat) (source : Bytes) : Bytes :=
  bytes.take start ++ source ++ bytes.drop (start + source.length)

theorem overwrite_append {before part source : Bytes} (after : Bytes)
    (same : source.length = part.length) :
    overwrite (before ++ (part ++ after)) before.length source = before ++ (source ++ after) := by
  rw [overwrite, take_left, same, ← append_assoc before part after,
    ← length_append, drop_left, append_assoc]

theorem length_overwrite {bytes source : Bytes} {start : Nat}
    (inside : start + source.length ≤ bytes.length) :
    (overwrite bytes start source).length = bytes.length := by
  rw [overwrite, length_append, length_append, length_take, length_drop]
  omega

theorem overwrite_inside {before part source : Bytes} (after : Bytes) {start : Nat}
    (inside : start + source.length ≤ part.length) :
    overwrite (before ++ (part ++ after)) (before.length + start) source =
      before ++ (overwrite part start source ++ after) := by
  have taken : (before ++ (part ++ after)).take (before.length + start) =
      before ++ part.take start := by
    rw [take_length_add_append, take_append_of_le_length (by omega)]
  have dropped : (before ++ (part ++ after)).drop (before.length + start + source.length) =
      part.drop (start + source.length) ++ after := by
    rw [Nat.add_assoc, drop_length_add_append, drop_append_of_le_length (by omega)]
  rw [overwrite, overwrite, taken, dropped]
  simp only [append_assoc]

theorem overwrite_nil (bytes : Bytes) (start : Nat) : overwrite bytes start [] = bytes := by
  rw [overwrite, append_nil, length_nil, Nat.add_zero, take_append_drop]

theorem overwrite_overwrite {bytes first second : Bytes} {start : Nat}
    (inside : start + first.length ≤ bytes.length) :
    overwrite (overwrite bytes start first) (start + first.length) second =
      overwrite bytes start (first ++ second) := by
  have length : (bytes.take start ++ first).length = start + first.length := by
    rw [length_append, length_take_of_le (by omega)]
  rw [overwrite, overwrite, overwrite, take_left' length, ← drop_drop,
    drop_left' length, drop_drop, length_append, Nat.add_assoc,
    append_assoc (bytes.take start)]

theorem overwrite_again {bytes first second : Bytes} {start : Nat}
    (inside : start + first.length ≤ bytes.length) (same : second.length = first.length) :
    overwrite (overwrite bytes start first) start second = overwrite bytes start second := by
  have length : (bytes.take start).length = start := length_take_of_le (by omega)
  have long : (bytes.take start ++ first).length = start + first.length := by
    rw [length_append, length]
  have front : ((bytes.take start ++ first) ++ bytes.drop (start + first.length)).take start =
      bytes.take start := by
    rw [append_assoc, take_left' length]
  have back : ((bytes.take start ++ first) ++ bytes.drop (start + first.length)).drop
      (start + first.length) = bytes.drop (start + first.length) := drop_left' long
  rw [overwrite, overwrite, overwrite, same, front, back]

theorem overwrite_same {bytes source after : Bytes} {start : Nat}
    (same : bytes.drop start = source ++ after) : overwrite bytes start source = bytes := by
  rw [overwrite, ← drop_drop, same, drop_left, append_assoc, ← same, take_append_drop]

def slice (bytes : Bytes) (start width : Nat) : Bytes :=
  (bytes.drop start).take width

theorem slice_inside {before part : Bytes} (after : Bytes) {start width : Nat}
    (inside : start + width ≤ part.length) :
    slice (before ++ (part ++ after)) (before.length + start) width = slice part start width := by
  rw [slice, slice, drop_length_add_append, drop_append_of_le_length (by omega),
    take_append_of_le_length (by rw [length_drop]; omega)]

theorem slice_overwrite_before {bytes source : Bytes} {start place width : Nat}
    (before : place + width ≤ start) (inside : start ≤ bytes.length) :
    slice (overwrite bytes start source) place width = slice bytes place width := by
  have shorter : place + width ≤ (bytes.take start).length := by
    rw [length_take]
    omega
  have left := @slice_inside [] (bytes.take start) (source ++ bytes.drop (start + source.length))
    place width shorter
  have right := @slice_inside [] (bytes.take start) (bytes.drop start) place width shorter
  rw [nil_append, length_nil, Nat.zero_add] at left right
  rw [take_append_drop] at right
  rw [overwrite, append_assoc, left, right]

theorem slice_overwrite {bytes source : Bytes} {start : Nat} (inside : start ≤ bytes.length) :
    slice (overwrite bytes start source) start source.length = source := by
  have length : (bytes.take start).length = start := length_take_of_le inside
  rw [slice, overwrite, append_assoc, drop_left' length, take_left]

theorem slice_overwrite_after {bytes source : Bytes} {start place width : Nat}
    (inside : start + source.length ≤ bytes.length) (behind : start + source.length ≤ place) :
    slice (overwrite bytes start source) place width = slice bytes place width := by
  have length : (bytes.take start ++ source).length = start + source.length := by
    rw [length_append, length_take_of_le (by omega)]
  obtain ⟨further, rfl⟩ := Nat.exists_eq_add_of_le behind
  rw [slice, slice, overwrite, ← drop_drop, drop_left' length, drop_drop]

theorem slice_add (bytes : Bytes) (start first second : Nat) : slice bytes start (first + second) =
      slice bytes start first ++ slice bytes (start + first) second := by
  rw [slice, slice, slice, take_add, drop_drop]

theorem slice_slice {place part width : Nat} (bytes : Bytes) (start : Nat)
    (inside : place + part ≤ width) :
    slice (slice bytes start width) place part = slice bytes (start + place) part := by
  rw [slice, slice, slice, drop_take, take_take, drop_drop, Nat.min_eq_left (by omega)]

theorem length_slice {bytes : Bytes} {start width : Nat} (inside : start + width ≤ bytes.length) :
    (slice bytes start width).length = width := by
  rw [slice, length_take_of_le (by rw [length_drop]; omega)]

theorem slice_zero (bytes : Bytes) (start : Nat) : slice bytes start 0 = [] := take_zero

end Bytes

end TowerSafe.Library
