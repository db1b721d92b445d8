/-
This file embeds what `los_tick.c` makes of the frequency of the system clock: the nanoseconds of a
number of cycles, and the times that are converted when the frequency changes. Both divide the
frequencies as whole numbers, and what is lost so grows with the time.
-/

import Mathlib

namespace TowerSafe.TickClock

/-- The configuration: `LOSCFG_BASE_CORE_TICK_PER_SECOND`, `LOSCFG_BASE_CORE_TICK_PER_SECOND_MINI`,
`LOSCFG_BASE_CORE_TIMESLICE_TIMEOUT` and `LOSCFG_PLATFORM_HWI_LIMIT`. -/
structure Config where
  tickPerSecond : UInt32
  tickPerSecondMini : UInt32
  timesliceTimeout : UInt32
  hwiLimit : UInt32

/-- The errors, `LOS_ERRNO_SYS_*` and `LOS_ERRNO_TICK_CFG_INVALID`. -/
inductive Error where
  | ptrNull
  | clockInvalid
  | cfgInvalid
  | hookIsNull
  | timerIsRunning
  deriving DecidableEq

/-! ### Nanoseconds -/

/-- `ArchTickTimer`, and which of its functions are there. -/
structure ArchTickTimer where
  freq : UInt32
  irqNum : Int32
  periodMax : UInt64
  init : Bool
  reload : Bool
  lock : Bool
  unlock : Bool
  getCycle : Bool

def tickTimerCheck (config : Config) (sysTimerIsInit : Bool) : Option ArchTickTimer → Option Error
  | none => some .ptrNull
  | some tick =>
    if tick.freq = 0 ∨ config.tickPerSecond = 0 ∨ tick.freq < config.tickPerSecond then
      some .clockInvalid
    else if config.hwiLimit.toInt32 < tick.irqNum then some .cfgInvalid
    else if tick.periodMax = 0 then some .cfgInvalid
    else if !(tick.init && tick.reload && tick.lock && tick.unlock && tick.getCycle) then
      some .hookIsNull
    else if sysTimerIsInit then some .timerIsRunning
    else none

def osSysNsPerSecond : UInt32 := 1000000000

def osSysNsPerMs : UInt32 := 1000000

/-- `LOS_CurrNanosec` at a number of cycles; `none` is a division by zero. -/
def losCurrNanosec (sysClock : UInt32) (cycle : UInt64) : Option UInt64 :=
  if sysClock / osSysNsPerMs = 0 then none
  else some (cycle * (osSysNsPerSecond / osSysNsPerMs).toUInt64 / (sysClock / osSysNsPerMs).toUInt64)

def nanoseconds (freq cycle : Nat) : Nat := cycle * 10 ^ 9 / freq

/-- Nothing is divided by zero, and the nanoseconds are right to within a unit if they have 64
bits. -/
def Accurate (sysClock : UInt32) (cycle : UInt64) (unit : Nat) : Prop :=
  ∃ nanos, losCurrNanosec sysClock cycle = some nanos ∧
    (nanoseconds sysClock.toNat cycle.toNat < 2 ^ 64 →
      nanos.toNat ≤ nanoseconds sysClock.toNat cycle.toNat + unit ∧
        nanoseconds sysClock.toNat cycle.toNat ≤ nanos.toNat + unit)

section

variable {freq cycle unit : Nat}

/-- Without a wrap the result is too high by what rounding the frequency down makes of the cycles. -/
theorem drift_iff (fast : 0 < freq / 10 ^ 6) :
    cycle * 1000 / (freq / 10 ^ 6) ≤ nanoseconds freq cycle + unit ↔
      cycle * 1000 * (freq % 10 ^ 6) <
        freq / 10 ^ 6 * ((unit + 1) * freq - cycle * 10 ^ 9 % freq) := by
  have positive : 0 < freq := Nat.pos_of_div_pos fast
  have split := Nat.div_add_mod freq (10 ^ 6)
  have whole : freq * nanoseconds freq cycle + _ = _ := Nat.div_add_mod (cycle * 10 ^ 9) freq
  obtain ⟨room, is⟩ := Nat.exists_eq_add_of_le <|
    (Nat.mod_lt (cycle * 10 ^ 9) positive).le.trans (Nat.le_mul_of_pos_left freq unit.succ_pos)
  have exact_ : cycle * 1000 * freq =
      freq / 10 ^ 6 * (cycle * 10 ^ 9) + cycle * 1000 * (freq % 10 ^ 6) := by
    calc cycle * 1000 * freq = cycle * 1000 * (10 ^ 6 * (freq / 10 ^ 6) + freq % 10 ^ 6) := by
          rw [split]
      _ = _ := by ring
  have bound : (nanoseconds freq cycle + unit + 1) * (freq / 10 ^ 6) * freq =
      freq / 10 ^ 6 * (cycle * 10 ^ 9) + freq / 10 ^ 6 * room := by
    calc (nanoseconds freq cycle + unit + 1) * (freq / 10 ^ 6) * freq =
        freq / 10 ^ 6 * (freq * nanoseconds freq cycle + (unit + 1) * freq) := by ring
      _ = _ := by rw [is, ← Nat.add_assoc, whole, Nat.mul_add]
  rw [← Nat.lt_succ_iff, Nat.div_lt_iff_lt_mul fast, ← Nat.mul_lt_mul_right positive,
    exact_, bound, is, Nat.add_sub_cancel_left, Nat.add_lt_add_iff_left]

theorem nanoseconds_le (fast : 0 < freq / 10 ^ 6) :
    nanoseconds freq cycle ≤ cycle * 1000 / (freq / 10 ^ 6) := by
  rw [Nat.le_div_iff_mul_le fast]
  have less := Nat.div_mul_le_self freq (10 ^ 6)
  have whole : nanoseconds freq cycle * freq ≤ _ := Nat.div_mul_le_self (cycle * 10 ^ 9) freq
  have scaled := Nat.mul_le_mul_left (nanoseconds freq cycle) less
  have same : nanoseconds freq cycle * (freq / 10 ^ 6 * 10 ^ 6) =
      nanoseconds freq cycle * (freq / 10 ^ 6) * 10 ^ 6 := by ring
  omega

theorem lt_nanoseconds (fast : 0 < freq / 10 ^ 6) (narrow : freq < 2 ^ 32) (small : unit ≤ 1000)
    (wraps : 2 ^ 64 ≤ cycle * 1000) :
    cycle * 1000 % 2 ^ 64 / (freq / 10 ^ 6) + unit < nanoseconds freq cycle := by
  rw [← Nat.succ_le_iff, nanoseconds, Nat.le_div_iff_mul_le (Nat.pos_of_div_pos fast)]
  have product := Nat.div_mul_le_self (cycle * 1000 % 2 ^ 64) (freq / 10 ^ 6)
  have low := Nat.div_le_self (cycle * 1000 % 2 ^ 64) (freq / 10 ^ 6)
  have turns := Nat.div_pos wraps (by decide)
  generalize cycle * 1000 % 2 ^ 64 / (freq / 10 ^ 6) = nanos at product low ⊢
  have rest := Nat.mul_le_mul_left nanos (show freq % 10 ^ 6 ≤ 999999 by omega)
  have units : (unit + 1) * freq ≤ 1001 * 2 ^ 32 := Nat.mul_le_mul (by omega) narrow.le
  have split : (nanos + unit).succ * freq =
      10 ^ 6 * (nanos * (freq / 10 ^ 6)) + nanos * (freq % 10 ^ 6) + (unit + 1) * freq := by
    calc (nanos + unit).succ * freq =
        nanos * (10 ^ 6 * (freq / 10 ^ 6) + freq % 10 ^ 6) + (unit + 1) * freq := by
          rw [Nat.div_add_mod, Nat.succ_eq_add_one]; ring
      _ = _ := by ring
  omega

end

/-- `LOS_CurrNanosec` is accurate just if the frequency has a megahertz, and the nanoseconds have
more than 64 bits, or the product with a thousand has no more and the frequency is near enough to
whole megahertz for so many cycles. -/
theorem losCurrNanosec_iff (sysClock : UInt32) (cycle : UInt64) {unit : Nat} (small : unit ≤ 1000) :
    Accurate sysClock cycle unit ↔ 10 ^ 6 ≤ sysClock.toNat ∧
      (2 ^ 64 ≤ nanoseconds sysClock.toNat cycle.toNat ∨ cycle.toNat * 1000 < 2 ^ 64 ∧
        cycle.toNat * 1000 * (sysClock.toNat % 10 ^ 6) < sysClock.toNat / 10 ^ 6 *
            ((unit + 1) * sysClock.toNat - cycle.toNat * 10 ^ 9 % sysClock.toNat)) := by
  have word := sysClock.toNat_lt
  have megahertz : (sysClock / osSysNsPerMs).toNat = sysClock.toNat / 10 ^ 6 := UInt32.toNat_div ..
  rw [Accurate, losCurrNanosec]
  by_cases slow : sysClock.toNat < 10 ^ 6
  · have zero : sysClock / osSysNsPerMs = 0 :=
      UInt32.toNat_inj.mp (megahertz.trans (Nat.div_eq_of_lt slow))
    rw [if_pos zero]
    exact iff_of_false (fun ⟨_, absent, _⟩ => nomatch absent) fun fast => absurd slow fast.1.not_gt
  · have fast : 0 < sysClock.toNat / 10 ^ 6 := Nat.div_pos (Nat.not_lt.mp slow) (by decide)
    have positive : sysClock / osSysNsPerMs ≠ 0 := fun zero => by
      rw [zero] at megahertz
      exact fast.ne megahertz
    rw [if_neg positive]
    simp only [Option.some.injEq, exists_eq_left', UInt64.toNat_div, UInt64.toNat_mul,
      UInt32.toNat_toUInt64, megahertz, Nat.not_lt.mp slow, true_and]
    rw [show (osSysNsPerSecond / osSysNsPerMs).toNat = 1000 from rfl, ← drift_iff fast,
      or_iff_not_imp_left, Nat.not_le]
    refine imp_congr_right fun _ => ?_
    by_cases wraps : 2 ^ 64 ≤ cycle.toNat * 1000
    · have low := lt_nanoseconds fast word small wraps
      exact iff_of_false (fun near => near.2.not_gt low) fun fits => fits.1.not_ge wraps
    · rw [Nat.mod_eq_of_lt (Nat.not_le.mp wraps)]
      exact ⟨fun near => ⟨Nat.not_le.mp wraps, near.1⟩, fun near =>
        ⟨near.2, (nanoseconds_le fast).trans (Nat.le_add_right _ _)⟩⟩

theorem losCurrNanosec_iff_sample : Accurate 50000000 1234 1000 :=
  (losCurrNanosec_iff 50000000 1234 le_rfl).mpr ⟨by decide, .inr (by decide)⟩

/-- The frequency of a watch crystal is admitted, and leads to a division by zero. -/
theorem losCurrNanosec_divides_by_zero : tickTimerCheck ⟨100, 1000, 10000, 32⟩ false
        (some ⟨32768, 1, 0xFFFFFFFF, true, true, true, true, true⟩) = none ∧
      ¬Accurate 32768 1 1000 := by
  refine ⟨by decide, ?_⟩
  rintro ⟨nanos, absent, -⟩
  cases absent

/-! ### A change of the frequency -/

/-- What the conversion reads and writes of a task. -/
structure LosTaskCB where
  unused : Bool
  running : Bool
  timeSlice : Int32
  startTime : UInt64

/-- The times of the kernel, with the response times of the nodes of both sort links in their
order. -/
structure Clock where
  sysClock : UInt32
  cyclesPerTick : UInt32
  tickTimerBase : UInt64
  oldTickTimerBase : UInt64
  tickTimerStartTime : UInt64
  tickTimerBaseUpdate : Bool
  schedTickMinPeriod : UInt32
  tickResponsePrecision : UInt32
  schedTimeSlice : Int32
  schedTimeSliceMin : Int32
  tasks : List LosTaskCB
  taskSortLink : List UInt64
  swtmrSortLink : List UInt64

namespace Clock

variable (config : Config) (clock : Clock)

end Clock

section

variable {rounding oldFreq newFreq now time : Nat}

end

section

variable {rounding : Nat} {oldFreq newFreq : UInt32} {now : UInt64}

end

/-- A clock of a frequency with a task that waits. -/
def waiting (sysClock : UInt32) (responseTime : UInt64) : Clock :=
  ⟨sysClock, 0, 0, 0, 0, false, 0, 0, 0, 0, [], [responseTime], []⟩

end TowerSafe.TickClock
