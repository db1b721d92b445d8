/-
This file proves the arithmetic the allocator rests on: what its masks and shifts compute, and
that its two-level size classes are monotone. The class of a size is computed with a left shift
that leaves 32 bits from 2^29 on, so monotonicity is stated below that size, and a larger size
is only known to land among the last classes.
-/

import Mathlib.Data.Nat.Bitwise
import Mathlib.Data.Nat.Find
import TowerSafe.Memory.Heap

namespace TowerSafe.Memory

open BitVec

/-! ### Masks -/

variable {value : Nat}

theorem u32_of_lt (small : value < 2 ^ 32) : u32 value = value := Nat.mod_eq_of_lt small

theorem u32Sub_of_le {first second : Nat} (small : first < 2 ^ 32) (le : second ≤ first) :
    u32Sub first second = first - second := by
  unfold u32Sub
  omega

variable {exponent : Nat}

theorem and_highMask (small : value < 2 ^ 32) (bound : exponent ≤ 32) :
    value &&& (2 ^ 32 - 2 ^ exponent) = value / 2 ^ exponent * 2 ^ exponent := by
  have mask : 2 ^ 32 - 2 ^ exponent = (2 ^ (32 - exponent) - 1) * 2 ^ exponent := by
    rw [Nat.sub_mul, ← Nat.pow_add, Nat.sub_add_cancel bound, Nat.one_mul]
  refine Nat.eq_of_testBit_eq fun index => ?_
  rw [mask, Nat.testBit_and, Nat.testBit_mul_two_pow, Nat.testBit_mul_two_pow,
    Nat.testBit_two_pow_sub_one, Nat.testBit_div_two_pow]
  by_cases low : exponent ≤ index
  · rw [Nat.sub_add_cancel low]
    by_cases high : index < 32
    · simp only [low, decide_true, Bool.true_and]
      rw [show decide (index - exponent < 32 - exponent) = true from decide_eq_true (by omega),
        Bool.and_true]
    · have clear : value.testBit index = false :=
        Nat.testBit_lt_two_pow (small.trans_le (Nat.pow_le_pow_right (by decide) (by omega)))
      simp only [clear, Bool.false_and, Bool.and_false]
  · simp only [low, decide_false, Bool.false_and, Bool.and_false]

variable {pointer : Nat}

theorem osMemAlign_eq (bound : exponent ≤ 32) (small : pointer + 2 ^ exponent - 1 < 2 ^ 32) :
    osMemAlign pointer (2 ^ exponent) =
      (pointer + 2 ^ exponent - 1) / 2 ^ exponent * 2 ^ exponent := by
  unfold osMemAlign
  rw [u32_of_lt small, and_highMask small bound]

theorem osMemAlign_bounds (bound : exponent ≤ 32) (small : pointer + 2 ^ exponent - 1 < 2 ^ 32) :
    pointer ≤ osMemAlign pointer (2 ^ exponent) ∧
      osMemAlign pointer (2 ^ exponent) < pointer + 2 ^ exponent ∧
      2 ^ exponent ∣ osMemAlign pointer (2 ^ exponent) := by
  rw [osMemAlign_eq bound small]
  have division := Nat.div_add_mod' (pointer + 2 ^ exponent - 1) (2 ^ exponent)
  exact ⟨by omega, by omega, Nat.dvd_mul_left _ _⟩

variable {size : Nat}

theorem osMemAlign_word (small : size + 3 < 2 ^ 32) :
    size ≤ osMemAlign size osMemAlignSize ∧ osMemAlign size osMemAlignSize < size + 4 ∧
      4 ∣ osMemAlign size osMemAlignSize :=
  @osMemAlign_bounds 2 size (by decide) small

theorem osMemIsAligned_iff :
    osMemIsAligned pointer (2 ^ exponent) = true ↔ 2 ^ exponent ∣ pointer := by
  unfold osMemIsAligned
  rw [Nat.and_two_pow_sub_one_eq_mod, beq_iff_eq, Nat.dvd_iff_mod_eq_zero]

theorem osMemIsPowTwo_iff (positive : value ≠ 0) :
    osMemIsPowTwo value = true ↔ ∃ exponent, value = 2 ^ exponent := by
  unfold osMemIsPowTwo
  rw [beq_iff_eq]
  exact Nat.and_sub_one_eq_zero_iff_isPowerOfTwo positive

/-! ### Flags -/

theorem osMemNodeGetSize_eq (sizeAndFlag : Nat) :
    osMemNodeGetSize sizeAndFlag = sizeAndFlag % 2 ^ 30 :=
  Nat.and_two_pow_sub_one_eq_mod sizeAndFlag 30

theorem osMemNodeGetUsedFlag_eq_zero_iff (sizeAndFlag : Nat) :
    osMemNodeGetUsedFlag sizeAndFlag = 0 ↔ sizeAndFlag / 2 ^ 31 % 2 = 0 := by
  show sizeAndFlag &&& 2 ^ 31 = 0 ↔ _
  rw [Nat.and_two_pow, Nat.testBit_eq_decide_div_mod_eq]
  rcases Nat.mod_two_eq_zero_or_one (sizeAndFlag / 2 ^ 31) with even | odd
  · rw [even]; decide
  · rw [odd]; decide

theorem osMemNodeGetAlignedFlag_eq_zero_iff (sizeAndFlag : Nat) :
    osMemNodeGetAlignedFlag sizeAndFlag = 0 ↔ sizeAndFlag / 2 ^ 30 % 2 = 0 := by
  show sizeAndFlag &&& 2 ^ 30 = 0 ↔ _
  rw [Nat.and_two_pow, Nat.testBit_eq_decide_div_mod_eq]
  rcases Nat.mod_two_eq_zero_or_one (sizeAndFlag / 2 ^ 30) with even | odd
  · rw [even]; decide
  · rw [odd]; decide

theorem or_usedFlag (small : size < 2 ^ 31) : size ||| osMemNodeUsedFlag = size + 2 ^ 31 :=
  Nat.or_two_pow_eq_add_of_lt small

theorem or_alignedFlag (small : size < 2 ^ 30) :
    (size + 2 ^ 31) ||| osMemNodeAlignedFlag = size + 2 ^ 31 + 2 ^ 30 := by
  have used : size + 2 ^ 31 = size ||| 2 ^ 31 :=
    (Nat.or_two_pow_eq_add_of_lt (small.trans (by decide))).symm
  have aligned : size ||| 2 ^ 30 = size + 2 ^ 30 := Nat.or_two_pow_eq_add_of_lt small
  show (size + 2 ^ 31) ||| 2 ^ 30 = _
  rw [used, Nat.or_assoc, Nat.or_comm (2 ^ 31), ← Nat.or_assoc, aligned,
    Nat.or_two_pow_eq_add_of_lt (show size + 2 ^ 30 < 2 ^ 31 by omega), Nat.add_right_comm, used]

/-! ### Bit scans -/

variable {word : BitVec 32}

section

variable (nonzero : word ≠ 0)
include nonzero

theorem osMemFLS_eq_log2 : osMemFLS word = word.toNat.log2 := by
  have positive : word.toNat ≠ 0 := fun zero => nonzero (eq_of_toNat_eq zero)
  have small : word.toNat.log2 < 32 := (Nat.log2_lt positive).mpr word.isLt
  unfold osMemFLS clz
  rw [if_neg nonzero]
  omega

theorem getLsbD_osMemFLS : word.getLsbD (osMemFLS word) = true := by
  rw [osMemFLS_eq_log2 nonzero]
  exact Nat.testBit_log2 fun zero => nonzero (eq_of_toNat_eq zero)

theorem exists_getLsbD : ∃ index, word.getLsbD index = true :=
  ⟨_, getLsbD_osMemFLS nonzero⟩

/-- The bit `OsMemFFS` finds is the lowest set bit. -/
theorem osMemFFS_spec : word.getLsbD (osMemFFS word) = true ∧
      ∀ index < osMemFFS word, word.getLsbD index = false := by
  let lowest := Nat.find (exists_getLsbD nonzero)
  have lowestSet : word.getLsbD lowest = true := Nat.find_spec (exists_getLsbD nonzero)
  have lowestLt : lowest < 32 := lt_of_getLsbD lowestSet
  have below : ∀ index < lowest, word.getLsbD index = false := fun index less =>
    Bool.eq_false_iff.mpr (Nat.find_min (exists_getLsbD nonzero) less)
  have isolated : ∀ index, (word &&& (~~~word + 1)).getLsbD index = decide (index = lowest) := by
    intro index
    rw [getLsbD_and, show ~~~word + 1 = -word from (neg_eq_not_add word).symm,
      getLsbD_neg]
    rcases Nat.lt_trichotomy index lowest with less | rfl | greater
    · rw [below index less, decide_eq_false less.ne, Bool.false_and]
    · have none : ¬∃ earlier < lowest, word.getLsbD earlier = true := fun ⟨earlier, less, set⟩ =>
        absurd set (Bool.eq_false_iff.mp (below earlier less))
      rw [lowestSet, decide_eq_false none, decide_eq_true lowestLt, decide_eq_true rfl]
      rfl
    · have some : ∃ earlier < index, word.getLsbD earlier = true := ⟨lowest, greater, lowestSet⟩
      rw [decide_eq_true some, decide_eq_false greater.ne']
      by_cases inside : index < 32
      · rw [decide_eq_true inside, Bool.true_and, Bool.xor_true, Bool.and_not_self]
      · rw [getLsbD_of_ge word index (Nat.le_of_not_lt inside), Bool.false_and]
  have isolatedNonzero : word &&& (~~~word + 1) ≠ 0 := by
    intro zero
    have set := isolated lowest
    rw [zero] at set
    exact absurd set (by simp)
  have found := getLsbD_osMemFLS isolatedNonzero
  rw [isolated, decide_eq_true_iff] at found
  have same : osMemFFS word = lowest := found
  rw [same]
  exact ⟨lowestSet, below⟩

theorem osMemFFS_lt : osMemFFS word < 32 :=
  lt_of_getLsbD (osMemFFS_spec nonzero).1

end

theorem getLsbD_upperMask {position : Nat} (bound : position < 32) (index : Nat) :
    (~~~(1#32 <<< position - 1#32)).getLsbD index =
      (decide (index < 32) && decide (position ≤ index)) := by
  have power : 2 ^ position < 2 ^ 32 := Nat.pow_lt_pow_right (by decide) bound
  have positive : 0 < 2 ^ position := Nat.two_pow_pos position
  have value : (1#32 <<< position - 1#32).toNat = 2 ^ position - 1 := by
    rw [toNat_sub, toNat_shiftLeft, toNat_ofNat]
    omega
  rw [getLsbD_not, BitVec.getLsbD, value, Nat.testBit_two_pow_sub_one]
  by_cases below : index < position
  · simp [below]
  · simp [below, Nat.le_of_not_lt below]

/-! ### Size classes -/

theorem osMemLog2_eq (positive : 0 < size) (small : size < 2 ^ 32) :
    osMemLog2 size = size.log2 := by
  have value : (BitVec.ofNat 32 size).toNat = size := by
    rw [toNat_ofNat, Nat.mod_eq_of_lt small]
  have nonzero : BitVec.ofNat 32 size ≠ 0 := fun zero => by
    rw [zero] at value
    exact positive.ne value
  unfold osMemLog2
  rw [if_pos positive, osMemFLS_eq_log2 nonzero, value]

theorem osMemFreeListIndexGet_small (low : 4 ≤ size) (high : size < 128) :
    osMemFreeListIndexGet size = size / 4 - 1 := by
  have first : osMemFlGet size = size / 4 - 1 := by
    unfold osMemFlGet
    rw [if_pos (show size < osMemSmallBucketMaxSize from high), Nat.shiftRight_eq_div_pow]
    exact u32Sub_of_le (by omega) (by omega)
  have bucket : osMemFlGet size < osMemSmallBucketCount := by
    show osMemFlGet size < 31
    omega
  unfold osMemFreeListIndexGet
  rw [if_pos bucket, first]

theorem osMemFlGet_large (low : 2 ^ exponent ≤ size)
    (high : size < 2 ^ (exponent + 1)) (large : 7 ≤ exponent) (small : exponent < 32) :
    osMemFlGet size = exponent - 7 + 31 := by
  have positive : 0 < size := (Nat.two_pow_pos exponent).trans_le low
  have wide : 128 ≤ size := (Nat.pow_le_pow_right (by decide) large : 2 ^ 7 ≤ 2 ^ exponent).trans low
  have bounded : size < 2 ^ 32 := high.trans_le (Nat.pow_le_pow_right (by decide) (by omega))
  have logarithm : size.log2 = exponent := (Nat.log2_eq_iff positive.ne').mpr ⟨low, high⟩
  unfold osMemFlGet
  rw [if_neg (show ¬size < osMemSmallBucketMaxSize from Nat.not_lt.mpr wide), osMemLog2_eq positive
    bounded, logarithm]
  rfl

theorem osMemFreeListIndexGet_large (low : 2 ^ exponent ≤ size)
    (high : size < 2 ^ (exponent + 1)) (large : 7 ≤ exponent) (small : exponent < 32) :
    osMemFreeListIndexGet size =
      u32 (31 + 8 * (exponent - 7) + u32Sub (u32 (size * 8) / 2 ^ exponent) 8) := by
  have first := osMemFlGet_large low high large small
  have wide : 128 ≤ size := (Nat.pow_le_pow_right (by decide) large : 2 ^ 7 ≤ 2 ^ exponent).trans low
  have later : ¬osMemFlGet size < osMemSmallBucketCount := by
    show ¬osMemFlGet size < 31
    omega
  have wideSize : ¬size < osMemSmallBucketMaxSize := by
    show ¬size < 128
    omega
  unfold osMemFreeListIndexGet osMemSlGet
  rw [if_neg later, if_neg (not_or.mpr ⟨later, wideSize⟩), first]
  show u32 (31 + (exponent - 7 + 31 - 31) <<< 3 +
    u32Sub (u32 (size <<< 3) >>> (exponent - 7 + 31 - 31 + 7)) 8) = _
  rw [Nat.shiftLeft_eq, Nat.shiftLeft_eq, Nat.shiftRight_eq_div_pow, Nat.add_sub_cancel,
    Nat.sub_add_cancel large, Nat.mul_comm (exponent - 7)]

theorem osMemFreeListIndexGet_exact (low : 2 ^ exponent ≤ size)
    (high : size < 2 ^ (exponent + 1)) (large : 7 ≤ exponent) (small : exponent < 29) :
    osMemFreeListIndexGet size = 31 + 8 * (exponent - 7) + (size * 8 / 2 ^ exponent - 8) ∧
      8 ≤ size * 8 / 2 ^ exponent ∧ size * 8 / 2 ^ exponent < 16 := by
  have positive : 0 < 2 ^ exponent := Nat.two_pow_pos exponent
  have bounded : size < 2 ^ 29 := high.trans_le (Nat.pow_le_pow_right (by decide) (by omega))
  have lower : 8 ≤ size * 8 / 2 ^ exponent := by
    rw [Nat.le_div_iff_mul_le positive]
    omega
  have upper : size * 8 / 2 ^ exponent < 16 := by
    rw [Nat.div_lt_iff_lt_mul positive]
    omega
  refine ⟨?_, lower, upper⟩
  rw [osMemFreeListIndexGet_large low high large (by omega), u32_of_lt (by omega : size * 8 < _),
    u32Sub_of_le (by omega) lower]
  exact u32_of_lt (by omega)

theorem osMemFreeListIndexGet_wrapped (low : 2 ^ 29 ≤ size) (high : size < 2 ^ 31) :
    199 ≤ osMemFreeListIndexGet size ∧ osMemFreeListIndexGet size < 211 := by
  by_cases second : 2 ^ 30 ≤ size
  · rw [osMemFreeListIndexGet_large second high (by decide) (by decide)]
    unfold u32 u32Sub
    omega
  · rw [osMemFreeListIndexGet_large low (Nat.lt_of_not_le second) (by decide) (by decide)]
    unfold u32 u32Sub
    omega

theorem exists_exponent (wide : 128 ≤ size) :
    ∃ exponent, 7 ≤ exponent ∧ 2 ^ exponent ≤ size ∧ size < 2 ^ (exponent + 1) := by
  have positive : size ≠ 0 := by omega
  exact ⟨size.log2, (Nat.le_log2 positive).mpr wide, Nat.log2_self_le positive, Nat.lt_log2_self⟩

theorem osMemFreeListIndexGet_lt (low : 4 ≤ size) (high : size < 2 ^ 31) :
    osMemFreeListIndexGet size < osMemFreeListCount := by
  show _ < 223
  by_cases narrow : size < 128
  · rw [osMemFreeListIndexGet_small low narrow]
    omega
  obtain ⟨exponent, large, lower, upper⟩ := exists_exponent (Nat.le_of_not_lt narrow)
  by_cases huge : 2 ^ 29 ≤ size
  · exact (osMemFreeListIndexGet_wrapped huge high).2.trans (by decide)
  have small : exponent < 29 :=
    (Nat.pow_lt_pow_iff_right (by decide : 1 < 2)).mp (lower.trans_lt (Nat.lt_of_not_le huge))
  obtain ⟨exact', first, last⟩ := osMemFreeListIndexGet_exact lower upper large small
  omega

/-- The small classes hold the small sizes only. -/
theorem osMemFreeListIndexGet_lt_bucket_iff (low : 4 ≤ size) (high : size < 2 ^ 31) :
    osMemFreeListIndexGet size < osMemSmallBucketCount ↔ size < 128 := by
  show _ < 31 ↔ _
  by_cases narrow : size < 128
  · rw [osMemFreeListIndexGet_small low narrow]
    omega
  refine iff_of_false (fun less => ?_) narrow
  obtain ⟨exponent, large, lower, upper⟩ := exists_exponent (Nat.le_of_not_lt narrow)
  by_cases huge : 2 ^ 29 ≤ size
  · exact absurd (osMemFreeListIndexGet_wrapped huge high).1 (by omega)
  have small : exponent < 29 :=
    (Nat.pow_lt_pow_iff_right (by decide : 1 < 2)).mp (lower.trans_lt (Nat.lt_of_not_le huge))
  obtain ⟨exact', first, last⟩ := osMemFreeListIndexGet_exact lower upper large small
  omega

theorem osMemFreeListIndexGet_mono {first second : Nat} (low : 4 ≤ first) (le : first ≤ second)
    (high : second < 2 ^ 29) : osMemFreeListIndexGet first ≤ osMemFreeListIndexGet second := by
  by_cases narrow : second < 128
  · rw [osMemFreeListIndexGet_small low (by omega), osMemFreeListIndexGet_small (by omega) narrow]
    omega
  have wide := (@osMemFreeListIndexGet_lt_bucket_iff second (by omega) (by omega)).not.mpr narrow
  by_cases firstNarrow : first < 128
  · have bucket := (@osMemFreeListIndexGet_lt_bucket_iff first low (by omega)).mpr firstNarrow
    omega
  obtain ⟨f, largeF, lowerF, upperF⟩ := exists_exponent (Nat.le_of_not_lt firstNarrow)
  obtain ⟨s, largeS, lowerS, upperS⟩ := exists_exponent (Nat.le_of_not_lt narrow)
  have smallS : s < 29 := (Nat.pow_lt_pow_iff_right (by decide : 1 < 2)).mp (lowerS.trans_lt high)
  have ordered : f < s + 1 :=
    (Nat.pow_lt_pow_iff_right (by decide : 1 < 2)).mp (lowerF.trans_lt (le.trans_lt upperS))
  obtain ⟨exactF, firstF, lastF⟩ := osMemFreeListIndexGet_exact lowerF upperF largeF (by omega)
  obtain ⟨exactS, firstS, lastS⟩ := osMemFreeListIndexGet_exact lowerS upperS largeS smallS
  rcases Nat.lt_or_eq_of_le (Nat.le_of_lt_succ ordered) with less | rfl
  · omega
  · have quotient : first * 8 / 2 ^ f ≤ second * 8 / 2 ^ f :=
      Nat.div_le_div_right (Nat.mul_le_mul_right 8 le)
    omega

theorem le_of_index_lt {request : Nat} (low : 4 ≤ size) (high : request < 2 ^ 29)
    (later : osMemFreeListIndexGet request < osMemFreeListIndexGet size) : request ≤ size := by
  by_contra less
  have monotone := osMemFreeListIndexGet_mono low (Nat.le_of_not_le less) high
  omega

end TowerSafe.Memory
