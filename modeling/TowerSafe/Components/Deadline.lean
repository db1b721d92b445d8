/-
This file embeds what `pthread_mutex_timedlock`, `pthread_cond_timedwait`, `sem_timedwait`,
`mq_timedsend` and `mq_timedreceive` make of an absolute deadline, with every number on the way in
its type. It says for each of them exactly which deadlines end in a wait of the right length.
-/

import TowerSafe.Library.Computed
import TowerSafe.Components.Cond

namespace TowerSafe.Deadline

open Library Library.Computed
open Cond (Timespec Errno validTimeSpec)

/-! ### The calls -/

def osSysNsPerSecond : Int := 1000000000

def osSysNsPerMsecond : Int := 1000000

def losWaitForever : Int := 4294967295

def losNoWait : Int := 0

/-- What comes of a deadline: an error, or a wait for a number of ticks that is asked of the
kernel. -/
inductive Request
  | failed (errno : Errno)
  | wait (ticks : Int)
  deriving DecidableEq

/-- The nanoseconds of a time, in the type `UINT64`. -/
def nanoseconds (tp : Timespec) : Computed Int := do
  let seconds ← unsigned 64 tp.tvSec
  let product ← unsigned 64 (seconds * osSysNsPerSecond)
  let nsec ← unsigned 64 tp.tvNsec
  unsigned 64 (product + nsec)

def osTimeSpec2Tick (ticksPerSecond : Int) (tp : Timespec) : Computed Int := do
  let ns ← nanoseconds tp
  let scaled ← unsigned 64 (ns * ticksPerSecond)
  let rounded ← unsigned 64 (scaled + (osSysNsPerSecond - 1))
  let tick := rounded / osSysNsPerSecond
  unsigned 32 (if losWaitForever < tick then losWaitForever else tick)

/-- `OsGetTickTimeFromNow`, with the time of the clock. -/
def osGetTickTimeFromNow (ticksPerSecond : Int) (ts now : Timespec) :
    Computed (Except Errno Int) := do
  let nsPerTick := osSysNsPerSecond / ticksPerSecond
  if validTimeSpec ts = false then pure (.error .einval)
  else
    let currTime ← nanoseconds now
    let nseconds ← nanoseconds ts
    if nseconds ≤ currTime then pure (.error .etimedout)
    else
      let left ← unsigned 64 (nseconds - currTime)
      let raised ← unsigned 64 (left + nsPerTick)
      let rounded ← unsigned 64 (raised - 1)
      let absTicks ← unsigned 64 (rounded / nsPerTick + 1)
      pure (.ok absTicks)

/-- `pthread_mutex_timedlock`, of a mutex that has passed its checks, as far as the argument of
`MuxPendForPosix`. -/
def pthreadMutexTimedlock (now absTimeout : Timespec) : Computed Request := do
  if absTimeout.tvNsec < 0 ∨ osSysNsPerSecond ≤ absTimeout.tvNsec then pure (.failed .einval)
  else
    let seconds ← signed 64 (absTimeout.tvSec - now.tvSec)
    let product ← signed 64 (seconds * osSysNsPerSecond)
    let nsec ← signed 32 (absTimeout.tvNsec - now.tvNsec)
    let difference ← signed 64 (product + nsec)
    let timeoutNs ← unsigned 64 difference
    if timeoutNs ≤ 0 then pure (.failed .etimedout)
    else
      let rounded ← unsigned 64 (timeoutNs + (osSysNsPerMsecond - 1))
      let timeout ← unsigned 32 (rounded / osSysNsPerMsecond)
      pure (.wait timeout)

/-- `pthread_cond_timedwait`, as far as the argument of `LOS_EventRead`. -/
def pthreadCondTimedwait (ticksPerSecond : Int) (now ts : Timespec) : Computed Request := do
  match ← osGetTickTimeFromNow ticksPerSecond ts now with
  | .error errno => pure (.failed errno)
  | .ok absTicks =>
      if 2 ^ 32 - 1 ≤ absTicks then pure (.failed .einval)
      else
        let ticks ← unsigned 32 absTicks
        pure (.wait ticks)

/-- `sem_timedwait`, as far as the argument of `LOS_SemPend`. -/
def semTimedwait (ticksPerSecond : Int) (now timeout : Timespec) : Computed Request := do
  match ← osGetTickTimeFromNow ticksPerSecond timeout now with
  | .error errno => pure (.failed errno)
  | .ok tickCnt =>
      let ticks ← unsigned 32 (if losWaitForever < tickCnt then losWaitForever else tickCnt)
      pure (.wait ticks)

/-- `ConvertTimeout`, with whether the descriptor has `FNONBLOCK`. -/
def convertTimeout (ticksPerSecond : Int) (nonblock : Bool) (absTimeout : Option Timespec) :
    Computed (Except Errno Int) :=
  if nonblock then pure (.ok losNoWait)
  else
    match absTimeout with
    | none => pure (.ok losWaitForever)
    | some absTimeout =>
        if validTimeSpec absTimeout = false then pure (.error .einval)
        else do
          let ticks ← osTimeSpec2Tick ticksPerSecond absTimeout
          pure (.ok ticks)

/-- `mq_timedsend`, of a descriptor and a message that have passed their checks, as far as the
argument of `LOS_QueueWriteCopy`. -/
def mqTimedsend (ticksPerSecond : Int) (nonblock : Bool) (absTimeout : Option Timespec) :
    Computed Request := do
  match ← convertTimeout ticksPerSecond nonblock absTimeout with
  | .error errno => pure (.failed errno)
  | .ok absTicks =>
      let ticks ← unsigned 32 absTicks
      pure (.wait ticks)

/-- `mq_timedreceive`, as far as the argument of `LOS_QueueReadCopy`. -/
def mqTimedreceive (ticksPerSecond : Int) (nonblock : Bool) (absTimeout : Option Timespec) :
    Computed Request :=
  mqTimedsend ticksPerSecond nonblock absTimeout

/-- The calls with a deadline. -/
inductive Call
  | mutexTimedlock
  | condTimedwait
  | semTimedwait
  | mqTimedsend (nonblock : Bool)
  | mqTimedreceive (nonblock : Bool)
  deriving DecidableEq

/-- What a call makes of its deadline. -/
def Call.request (ticksPerSecond : Int) (now deadline : Timespec) : Call → Computed Request
  | .mutexTimedlock => pthreadMutexTimedlock now deadline
  | .condTimedwait => pthreadCondTimedwait ticksPerSecond now deadline
  | .semTimedwait => Deadline.semTimedwait ticksPerSecond now deadline
  | .mqTimedsend nonblock => Deadline.mqTimedsend ticksPerSecond nonblock (some deadline)
  | .mqTimedreceive nonblock => Deadline.mqTimedreceive ticksPerSecond nonblock (some deadline)

/-! ### What is to come of a deadline -/

def ofTimespec (tp : Timespec) : Int := tp.tvSec * osSysNsPerSecond + tp.tvNsec

/-- A request is right for a time and a deadline: it waits at least until the deadline, and at most
two ticks longer or for ever when no wait is as long as that; or it is past the deadline. -/
structure Request.Meets (nsPerTick now deadline : Int) (request : Request) : Prop where
  waits : now < deadline → ∃ ticks, request = .wait ticks ∧
    (ticks = losWaitForever → (losWaitForever - 1) * nsPerTick < deadline - now + 2 * nsPerTick) ∧
    (ticks ≠ losWaitForever → deadline - now ≤ ticks * nsPerTick ∧
      ticks * nsPerTick ≤ deadline - now + 2 * nsPerTick)
  timesOut : deadline ≤ now → request = .failed .etimedout

/-- The times and deadlines for which a call is right, with all numbers in their types. -/
def Call.inRange (ticksPerSecond now deadline : Int) : Call → Prop
  | .mutexTimedlock => now = deadline ∨ now < deadline ∧
      (ticksPerSecond = 1000 ∧ deadline - now ≤ losWaitForever * osSysNsPerMsecond ∨
        ticksPerSecond = 500 ∧ (deadline - now ≤ 3 * osSysNsPerMsecond ∨
          deadline - now = 4 * osSysNsPerMsecond) ∨
        ticksPerSecond < 500 ∧ deadline - now ≤ 2 * osSysNsPerMsecond)
  | .condTimedwait => now < 2 ^ 64 ∧ deadline < 2 ^ 64 ∧
      deadline - now ≤ (losWaitForever - 2) * (osSysNsPerSecond / ticksPerSecond)
  | .semTimedwait => now < 2 ^ 64 ∧ deadline < 2 ^ 64 ∧
      (now < deadline → deadline - now + osSysNsPerSecond / ticksPerSecond < 2 ^ 64)
  | .mqTimedsend nonblock | .mqTimedreceive nonblock => nonblock = false ∧ now < deadline ∧
      deadline * ticksPerSecond + (osSysNsPerSecond - 1) < 2 ^ 64 ∧
      (deadline ≤ (losWaitForever - 1) * (osSysNsPerSecond / ticksPerSecond) ∧
          now + -deadline % (osSysNsPerSecond / ticksPerSecond) ≤
            2 * (osSysNsPerSecond / ticksPerSecond) ∨
        (losWaitForever - 3) * (osSysNsPerSecond / ticksPerSecond) < deadline - now ∧
          (losWaitForever - 1) * (osSysNsPerSecond / ticksPerSecond) < deadline)

/-! ### Times and ticks -/

theorem valid_iff {tp : Timespec} :
    validTimeSpec tp = true ↔ 0 ≤ tp.tvSec ∧ 0 ≤ tp.tvNsec ∧ tp.tvNsec < osSysNsPerSecond := by
  unfold validTimeSpec Cond.osSysNsPerSecond osSysNsPerSecond
  simp only [Bool.not_eq_true', Bool.or_eq_false_iff, decide_eq_false_iff_not]
  omega

theorem yields_nanoseconds {tp : Timespec} {kind : Int → Prop} (valid : validTimeSpec tp = true) :
    (nanoseconds tp).Yields kind ↔ ofTimespec tp < 2 ^ 64 ∧ kind (ofTimespec tp) := by
  obtain ⟨seconds, nsec, below⟩ := valid_iff.mp valid
  unfold nanoseconds ofTimespec
  unfold osSysNsPerSecond at below ⊢
  simp only [yields_bind, yields_unsigned]
  refine ⟨fun ⟨_, _, _, fits, holds⟩ => ⟨fits.2, holds⟩, fun ⟨fits, holds⟩ => ?_⟩
  exact ⟨by omega, by omega, by omega, by omega, holds⟩

theorem roundUp_bounds {number step : Int} (positive : 0 < step) :
    number ≤ (number + step - 1) / step * step ∧
      (number + step - 1) / step * step < number + step := by
  have below := Int.ediv_mul_le (number + step - 1) (Int.ne_of_gt positive)
  have above := Int.lt_ediv_add_one_mul_self (number + step - 1) positive
  rw [Int.add_mul, Int.one_mul] at above
  omega

theorem roundUp_le {number step bound : Int} (positive : 0 < step) :
    (number + step - 1) / step ≤ bound ↔ number ≤ bound * step := by
  obtain ⟨above, below⟩ := @roundUp_bounds number step positive
  refine ⟨fun le => above.trans (Int.mul_le_mul_of_nonneg_right le (Int.le_of_lt positive)),
    fun le => ?_⟩
  have less : (number + step - 1) / step * step < (bound + 1) * step := by
    rw [Int.add_mul, Int.one_mul]
    omega
  exact Int.le_of_lt_add_one (Int.lt_of_mul_lt_mul_right less (Int.le_of_lt positive))

section

variable {ticksPerSecond now deadline nsPerTick : Int} {kind : Except Errno Int → Prop}

theorem yields_osGetTickTimeFromNow {ts current : Timespec}
    (positive : 0 < osSysNsPerSecond / ticksPerSecond) (validTs : validTimeSpec ts = true)
    (validNow : validTimeSpec current = true) :
    (osGetTickTimeFromNow ticksPerSecond ts current).Yields kind ↔
      ofTimespec current < 2 ^ 64 ∧ ofTimespec ts < 2 ^ 64 ∧
        (ofTimespec ts ≤ ofTimespec current → kind (.error .etimedout)) ∧
        (ofTimespec current < ofTimespec ts →
          ofTimespec ts - ofTimespec current + osSysNsPerSecond / ticksPerSecond < 2 ^ 64 ∧
          kind (.ok ((ofTimespec ts - ofTimespec current + osSysNsPerSecond / ticksPerSecond - 1) /
            (osSysNsPerSecond / ticksPerSecond) + 1))) := by
  unfold osGetTickTimeFromNow
  rw [if_neg (by rw [validTs]; exact Bool.false_ne_true.symm)]
  simp only [yields_bind, yields_nanoseconds validTs, yields_nanoseconds validNow, yields_ite]
  generalize osSysNsPerSecond / ticksPerSecond = nsPerTick at positive ⊢
  generalize ofTimespec ts = deadline
  generalize ofTimespec current = now
  refine and_congr_right fun fitsNow => and_congr_right fun fitsDeadline => ?_
  by_cases past : deadline ≤ now
  · rw [if_pos past, yields_pure]
    exact ⟨fun holds => ⟨fun _ => holds, fun no => absurd past (Int.not_le.mpr no)⟩,
      fun holds => holds.1 past⟩
  rw [if_neg past]
  simp only [yields_unsigned, yields_pure]
  have quotient : (deadline - now + nsPerTick - 1) / nsPerTick ≤ deadline - now + nsPerTick - 1 :=
    Int.ediv_le_self _ (by omega)
  have nonneg : 0 ≤ (deadline - now + nsPerTick - 1) / nsPerTick :=
    Int.ediv_nonneg (by omega) (by omega)
  refine ⟨fun ⟨_, fits, _, _, holds⟩ => ⟨fun no => absurd no past, fun _ => ⟨fits.2, holds⟩⟩,
    fun holds => ?_⟩
  obtain ⟨fits, holds⟩ := holds.2 (Int.not_le.mp past)
  exact ⟨by omega, by omega, by omega, by omega, holds⟩

/-! ### Each call -/

theorem meets_failed (past : deadline ≤ now) :
    (Request.failed .etimedout).Meets nsPerTick now deadline :=
  ⟨fun later => absurd past (Int.not_le.mpr later), fun _ => rfl⟩

theorem meets_wait {ticks : Int} (later : now < deadline) :
    (Request.wait ticks).Meets nsPerTick now deadline ↔
      (ticks = losWaitForever →
        (losWaitForever - 1) * nsPerTick < deadline - now + 2 * nsPerTick) ∧
      (ticks ≠ losWaitForever → deadline - now ≤ ticks * nsPerTick ∧
        ticks * nsPerTick ≤ deadline - now + 2 * nsPerTick) := by
  refine ⟨fun meets => ?_, fun right => ⟨fun _ => ⟨ticks, rfl, right⟩, fun past =>
    absurd later (Int.not_lt.mpr past)⟩⟩
  obtain ⟨again, same, right⟩ := meets.waits later
  exact Request.wait.inj same ▸ right

theorem not_meets_failed {errno : Errno} (later : now < deadline) :
    ¬(Request.failed errno).Meets nsPerTick now deadline := fun meets => by
  obtain ⟨ticks, no, -⟩ := meets.waits later
  cases no

theorem meets_fromNow (positive : 0 < nsPerTick) (later : now < deadline) :
    let ticks := (deadline - now + nsPerTick - 1) / nsPerTick + 1
    (Request.wait (if losWaitForever < ticks then losWaitForever else ticks)).Meets
      nsPerTick now deadline := by
  intro ticks
  obtain ⟨above, below⟩ := @roundUp_bounds (deadline - now) nsPerTick positive
  have product : ticks * nsPerTick =
      (deadline - now + nsPerTick - 1) / nsPerTick * nsPerTick + nsPerTick := by
    rw [Int.add_mul, Int.one_mul]
  rw [meets_wait later]
  by_cases many : losWaitForever ≤ ticks
  · have forever : (if losWaitForever < ticks then losWaitForever else ticks) = losWaitForever := by
      split
      · rfl
      · omega
    rw [forever]
    refine ⟨fun _ => ?_, fun no => absurd rfl no⟩
    have le := Int.mul_le_mul_of_nonneg_right many (Int.le_of_lt positive)
    rw [Int.sub_mul]
    omega
  · rw [if_neg (by omega)]
    exact ⟨fun same => absurd (Int.le_of_eq same.symm) many, fun _ => by omega⟩

end

section

variable {ticksPerSecond : Int} {now deadline : Timespec}

theorem semTimedwait_meets_iff (positive : 0 < osSysNsPerSecond / ticksPerSecond)
    (validNow : validTimeSpec now = true) (valid : validTimeSpec deadline = true) :
    (semTimedwait ticksPerSecond now deadline).Yields
        (Request.Meets (osSysNsPerSecond / ticksPerSecond) (ofTimespec now) (ofTimespec deadline)) ↔
      Call.semTimedwait.inRange ticksPerSecond (ofTimespec now) (ofTimespec deadline) := by
  unfold semTimedwait Call.inRange
  rw [yields_bind, yields_osGetTickTimeFromNow positive valid validNow]
  simp only [yields_bind, yields_unsigned, yields_pure]
  refine and_congr_right fun _ => and_congr_right fun _ =>
    ⟨fun right later => (right.2 later).1, fun fits => ⟨meets_failed, fun later => ?_⟩⟩
  refine ⟨fits later, ?_, meets_fromNow positive later⟩
  have nonneg : 0 ≤ (ofTimespec deadline - ofTimespec now + osSysNsPerSecond / ticksPerSecond - 1) /
      (osSysNsPerSecond / ticksPerSecond) := Int.ediv_nonneg (by omega) (by omega)
  unfold losWaitForever
  omega

theorem condTimedwait_meets_iff (positive : 0 < osSysNsPerSecond / ticksPerSecond)
    (validNow : validTimeSpec now = true) (valid : validTimeSpec deadline = true) :
    (pthreadCondTimedwait ticksPerSecond now deadline).Yields
        (Request.Meets (osSysNsPerSecond / ticksPerSecond) (ofTimespec now) (ofTimespec deadline)) ↔
      Call.condTimedwait.inRange ticksPerSecond (ofTimespec now) (ofTimespec deadline) := by
  have small : osSysNsPerSecond / ticksPerSecond ≤ osSysNsPerSecond :=
    Int.ediv_le_self _ (by unfold osSysNsPerSecond; omega)
  unfold pthreadCondTimedwait Call.inRange
  rw [yields_bind, yields_osGetTickTimeFromNow positive valid validNow]
  simp only [yields_bind, yields_unsigned, yields_pure, yields_ite]
  refine and_congr_right fun _ => and_congr_right fun _ => ?_
  generalize osSysNsPerSecond / ticksPerSecond = nsPerTick at positive small ⊢
  generalize ofTimespec now = now at *
  generalize ofTimespec deadline = deadline at *
  have few : (deadline - now + nsPerTick - 1) / nsPerTick ≤ losWaitForever - 2 ↔
      deadline - now ≤ (losWaitForever - 2) * nsPerTick := roundUp_le positive
  have product : 0 ≤ (losWaitForever - 2) * nsPerTick :=
    Int.mul_nonneg (by unfold losWaitForever; omega) (by omega)
  refine ⟨fun right => ?_, fun near => ⟨meets_failed, fun later => ?_⟩⟩
  · by_cases later : now < deadline
    · obtain ⟨-, holds⟩ := right.2 later
      by_cases many : 2 ^ 32 - 1 ≤ (deadline - now + nsPerTick - 1) / nsPerTick + 1
      · rw [if_pos many] at holds
        exact absurd holds (not_meets_failed later)
      · unfold losWaitForever at few ⊢
        exact few.mp (by omega)
    · omega
  · have le := few.mpr near
    unfold losWaitForever at le near
    have nonneg : 0 ≤ (deadline - now + nsPerTick - 1) / nsPerTick :=
      Int.ediv_nonneg (by omega) (by omega)
    have meets := @meets_fromNow now deadline nsPerTick positive later
    dsimp only at meets
    rw [if_neg (by unfold losWaitForever; omega)] at meets
    rw [if_neg (by omega)]
    unfold osSysNsPerSecond at small
    exact ⟨by omega, by omega, meets⟩

theorem meets_milliseconds {difference factor milliseconds : Int} (some_ : 0 < factor)
    (three : factor ≠ 3) (above : difference ≤ milliseconds * osSysNsPerMsecond)
    (below : milliseconds * osSysNsPerMsecond < difference + osSysNsPerMsecond)
    (small : milliseconds ≤ losWaitForever) (later : 0 < difference) :
    ((milliseconds = losWaitForever → (losWaitForever - 1) * (factor * osSysNsPerMsecond) <
          difference + 2 * (factor * osSysNsPerMsecond)) ∧
        (milliseconds ≠ losWaitForever →
          difference ≤ milliseconds * (factor * osSysNsPerMsecond) ∧
          milliseconds * (factor * osSysNsPerMsecond) ≤
            difference + 2 * (factor * osSysNsPerMsecond))) ↔
      (factor = 1 ∨ factor = 2 ∧ (difference ≤ 3 * osSysNsPerMsecond ∨
          difference = 4 * osSysNsPerMsecond) ∨
        4 ≤ factor ∧ difference ≤ 2 * osSysNsPerMsecond) := by
  unfold losWaitForever osSysNsPerMsecond at *
  by_cases one : factor = 1
  · subst one
    omega
  by_cases two : factor = 2
  · subst two
    omega
  have large : 4 ≤ factor := by omega
  have reassoc : milliseconds * (factor * 1000000) = milliseconds * factor * 1000000 :=
    (Int.mul_assoc ..).symm
  have least : milliseconds ≤ milliseconds * factor := le_mul_of_one_le_right (by omega) (by omega)
  by_cases short : milliseconds ≤ 2
  · have most : milliseconds * factor ≤ 2 * factor :=
      Int.mul_le_mul_of_nonneg_right short (by omega)
    omega
  have product : 0 ≤ (milliseconds - 3) * (factor - 4) := Int.mul_nonneg (by omega) (by omega)
  have expanded : (milliseconds - 3) * (factor - 4) =
      milliseconds * factor - 4 * milliseconds - 3 * factor + 12 := by ring
  omega

/-- The tick rates whose tick is one millisecond, two, and more. -/
theorem rate_iff {factor : Int} (product : 1000 = ticksPerSecond * factor)
    (some_ : 0 < ticksPerSecond) (positive : 0 < factor) :
    (ticksPerSecond = 1000 ↔ factor = 1) ∧ (ticksPerSecond = 500 ↔ factor = 2) ∧
      (ticksPerSecond < 500 ↔ 4 ≤ factor) ∧ factor ≠ 3 := by
  by_cases large : 4 ≤ factor
  · have least : ticksPerSecond * 4 ≤ ticksPerSecond * factor :=
      Int.mul_le_mul_of_nonneg_left large (Int.le_of_lt some_)
    omega
  · have three : factor = 1 ∨ factor = 2 ∨ factor = 3 := by omega
    rcases three with rfl | rfl | rfl <;> omega

theorem mutexTimedlock_meets_iff (divides : ticksPerSecond ∣ 1000) (some_ : 0 < ticksPerSecond)
    (validNow : validTimeSpec now = true) (valid : validTimeSpec deadline = true) :
    (pthreadMutexTimedlock now deadline).Yields
        (Request.Meets (osSysNsPerSecond / ticksPerSecond) (ofTimespec now) (ofTimespec deadline)) ↔
      Call.mutexTimedlock.inRange ticksPerSecond (ofTimespec now) (ofTimespec deadline) := by
  obtain ⟨factor, product⟩ := divides
  have positive : 0 < factor := Int.pos_of_mul_pos_right (by omega) some_
  have perTick : osSysNsPerSecond / ticksPerSecond = factor * osSysNsPerMsecond := by
    have whole : osSysNsPerSecond = factor * osSysNsPerMsecond * ticksPerSecond := by
      unfold osSysNsPerSecond osSysNsPerMsecond
      linear_combination 1000000 * product
    rw [whole, Int.mul_ediv_cancel _ (Int.ne_of_gt some_)]
  obtain ⟨secondsNow, nsecNow, belowNow⟩ := valid_iff.mp validNow
  obtain ⟨seconds, nsec, below⟩ := valid_iff.mp valid
  unfold pthreadMutexTimedlock Call.inRange
  rw [perTick, if_neg (by omega)]
  simp only [yields_bind, yields_unsigned, yields_signed, yields_pure, yields_ite]
  have difference : (deadline.tvSec - now.tvSec) * osSysNsPerSecond +
      (deadline.tvNsec - now.tvNsec) = ofTimespec deadline - ofTimespec now := by
    unfold ofTimespec
    ring
  rw [difference]
  obtain ⟨rateOne, rateTwo, rateMore, three⟩ := rate_iff product some_ positive
  unfold osSysNsPerSecond at belowNow below difference ⊢
  generalize ofTimespec now = current at *
  generalize ofTimespec deadline = last at *
  rcases lt_trichotomy last current with past | same | later
  · exact iff_of_false (fun right => absurd right.2.2.2.2.1.1 (by omega)) (by omega)
  · rw [if_pos (by omega)]
    exact iff_of_true ⟨by omega, by omega, by omega, by omega, by omega,
      meets_failed (Int.le_of_eq same)⟩ (.inl same.symm)
  · rw [if_neg (by omega), meets_wait later]
    have bounds := @roundUp_bounds (last - current) osSysNsPerMsecond (by decide)
    have few : (last - current + osSysNsPerMsecond - 1) / osSysNsPerMsecond ≤ losWaitForever ↔
        last - current ≤ losWaitForever * osSysNsPerMsecond := roundUp_le (by decide)
    rw [← Int.add_sub_assoc]
    generalize (last - current + osSysNsPerMsecond - 1) / osSysNsPerMsecond = milliseconds at *
    have right := fun small => @meets_milliseconds (last - current) factor milliseconds positive
      three bounds.1 bounds.2 small (by omega)
    unfold losWaitForever osSysNsPerMsecond at *
    refine ⟨fun ⟨_, _, _, _, _, _, fits, meets⟩ => ?_, fun holds => ?_⟩
    · have short := (right (by omega)).mp meets
      omega
    · have small : milliseconds ≤ 4294967295 := few.mpr (by omega)
      exact ⟨by omega, by omega, by omega, by omega, by omega, by omega, by omega,
        (right small).mpr (by omega)⟩

theorem ofTimespec_nonneg {tp : Timespec} (valid : validTimeSpec tp = true) :
    0 ≤ ofTimespec tp := by
  obtain ⟨seconds, nsec, -⟩ := valid_iff.mp valid
  unfold ofTimespec osSysNsPerSecond
  omega

theorem ticks_bounds {number ticks nsPerTick : Int} (some_ : 0 < ticksPerSecond)
    (product : osSysNsPerSecond = nsPerTick * ticksPerSecond)
    (rounded : ticks = (number * ticksPerSecond + (osSysNsPerSecond - 1)) / osSysNsPerSecond) :
    number ≤ ticks * nsPerTick ∧ ticks * nsPerTick < number + nsPerTick := by
  obtain ⟨above, below⟩ := @roundUp_bounds (number * ticksPerSecond) osSysNsPerSecond (by decide)
  rw [Int.add_sub_assoc, ← rounded] at above below
  have same : ticks * osSysNsPerSecond = ticks * nsPerTick * ticksPerSecond := by
    rw [product, Int.mul_assoc]
  have sum : number * ticksPerSecond + osSysNsPerSecond =
      (number + nsPerTick) * ticksPerSecond := by
    rw [product, Int.add_mul]
  rw [same] at above below
  rw [sum] at below
  exact ⟨Int.le_of_mul_le_mul_right above some_,
    Int.lt_of_mul_lt_mul_right below (Int.le_of_lt some_)⟩

theorem missing_eq {number step quotient : Int} (above : number ≤ quotient * step)
    (below : quotient * step < number + step) : -number % step = quotient * step - number := by
  have same : -number = quotient * step - number + step * -quotient := by ring
  rw [same, Int.add_mul_emod_self_left]
  exact Int.emod_eq_of_lt (by omega) (by omega)

theorem meets_ticks {current last nsPerTick ticks : Int} (positive : 0 < nsPerTick)
    (nonneg : 0 ≤ current) (later : current < last) (above : last ≤ ticks * nsPerTick)
    (below : ticks * nsPerTick < last + nsPerTick) :
    (Request.wait (if losWaitForever < ticks then losWaitForever else ticks)).Meets
        nsPerTick current last ↔
      (last ≤ (losWaitForever - 1) * nsPerTick ∧ current + -last % nsPerTick ≤ 2 * nsPerTick ∨
        (losWaitForever - 3) * nsPerTick < last - current ∧
          (losWaitForever - 1) * nsPerTick < last) := by
  rw [meets_wait later, missing_eq above below]
  have far : (losWaitForever - 1) * nsPerTick =
      (losWaitForever - 3) * nsPerTick + 2 * nsPerTick := by
    ring
  by_cases many : losWaitForever ≤ ticks
  · have forever : (if losWaitForever < ticks then losWaitForever else ticks) = losWaitForever := by
      split
      · rfl
      · omega
    have beyond : losWaitForever * nsPerTick ≤ ticks * nsPerTick :=
      Int.mul_le_mul_of_nonneg_right many (Int.le_of_lt positive)
    have split : losWaitForever * nsPerTick = (losWaitForever - 1) * nsPerTick + nsPerTick := by
      ring
    rw [forever]
    refine ⟨fun right => .inr ⟨?_, by omega⟩, fun right => ⟨fun _ => ?_, fun no => absurd rfl no⟩⟩
    · have long := right.1 rfl
      omega
    · omega
  · have within : ticks * nsPerTick ≤ (losWaitForever - 1) * nsPerTick :=
      Int.mul_le_mul_of_nonneg_right (by omega) (Int.le_of_lt positive)
    rw [if_neg (by omega)]
    refine ⟨fun right => .inl ⟨by omega, ?_⟩, fun right => ⟨fun same => ?_, fun _ => ?_⟩⟩
    · omega
    · omega
    · omega

theorem mqTimedsend_meets_iff (nonblock : Bool) (divides : ticksPerSecond ∣ 1000)
    (some_ : 0 < ticksPerSecond) (validNow : validTimeSpec now = true)
    (valid : validTimeSpec deadline = true) :
    (mqTimedsend ticksPerSecond nonblock (some deadline)).Yields
        (Request.Meets (osSysNsPerSecond / ticksPerSecond) (ofTimespec now) (ofTimespec deadline)) ↔
      (Call.mqTimedsend nonblock).inRange ticksPerSecond (ofTimespec now)
        (ofTimespec deadline) := by
  have product : osSysNsPerSecond = osSysNsPerSecond / ticksPerSecond * ticksPerSecond :=
    (Int.ediv_mul_cancel (divides.trans (by decide))).symm
  have nonneg := ofTimespec_nonneg valid
  have nonnegNow := ofTimespec_nonneg validNow
  unfold mqTimedsend convertTimeout Call.inRange
  cases nonblock with
  | true =>
    rw [if_pos rfl]
    simp only [yields_bind, yields_pure, yields_unsigned]
    refine iff_of_false (fun right => ?_) fun right => Bool.false_ne_true.symm right.1
    by_cases later : ofTimespec now < ofTimespec deadline
    · have waits := ((meets_wait later).mp right.2).2 (by decide)
      unfold losNoWait at waits
      omega
    · have no := right.2.timesOut (Int.not_lt.mp later)
      cases no
  | false =>
    rw [if_neg Bool.false_ne_true]
    dsimp only
    rw [if_neg (by rw [valid]; exact Bool.false_ne_true.symm)]
    unfold osTimeSpec2Tick
    simp only [yields_bind, yields_pure, yields_unsigned, yields_nanoseconds valid]
    generalize osSysNsPerSecond / ticksPerSecond = nsPerTick at product ⊢
    generalize rounded : (ofTimespec deadline * ticksPerSecond + (osSysNsPerSecond - 1)) /
      osSysNsPerSecond = ticks
    obtain ⟨above, below⟩ := ticks_bounds some_ product rounded.symm
    have positive : 0 < nsPerTick := by
      refine Int.pos_of_mul_pos_left ?_ some_
      rw [← product]
      decide
    have scaled : ofTimespec deadline ≤ ofTimespec deadline * ticksPerSecond :=
      le_mul_of_one_le_right nonneg some_
    have clamped : 0 ≤ (if losWaitForever < ticks then losWaitForever else ticks) ∧
        (if losWaitForever < ticks then losWaitForever else ticks) < 2 ^ 32 := by
      have nonnegTicks : 0 ≤ ticks := by
        rw [← rounded]
        unfold osSysNsPerSecond
        omega
      unfold losWaitForever
      split <;> omega
    by_cases later : ofTimespec now < ofTimespec deadline
    · rw [meets_ticks positive nonnegNow later above below]
      unfold osSysNsPerSecond
      exact ⟨fun right => ⟨trivial, later, right.2.2.1.2, right.2.2.2.2.2⟩, fun right =>
        ⟨by omega, by omega, by omega, clamped, clamped, right.2.2.2⟩⟩
    · refine iff_of_false (fun right => ?_) fun right => later right.2.1
      have no := right.2.2.2.2.2.timesOut (Int.not_lt.mp later)
      cases no

end

/-! ### All calls -/

/-- Every call is right for exactly the times and deadlines in its range. -/
theorem meets_iff (call : Call) (ticksPerSecond : Int) (divides : ticksPerSecond ∣ 1000)
    (some_ : 0 < ticksPerSecond) (now deadline : Timespec) (validNow : validTimeSpec now = true)
    (valid : validTimeSpec deadline = true) : (call.request ticksPerSecond now deadline).Yields
        (Request.Meets (osSysNsPerSecond / ticksPerSecond) (ofTimespec now) (ofTimespec deadline)) ↔
      call.inRange ticksPerSecond (ofTimespec now) (ofTimespec deadline) := by
  have positive : 0 < osSysNsPerSecond / ticksPerSecond :=
    Int.ediv_pos_of_pos_of_dvd (by decide) (Int.le_of_lt some_) (divides.trans (by decide))
  cases call with
  | mutexTimedlock => exact mutexTimedlock_meets_iff divides some_ validNow valid
  | condTimedwait => exact condTimedwait_meets_iff positive validNow valid
  | semTimedwait => exact semTimedwait_meets_iff positive validNow valid
  | mqTimedsend nonblock => exact mqTimedsend_meets_iff nonblock divides some_ validNow valid
  | mqTimedreceive nonblock => exact mqTimedsend_meets_iff nonblock divides some_ validNow valid

/-- With a tick of ten milliseconds, a semaphore is waited for until a second later, in 101
ticks. -/
theorem meets_iff_sample : (semTimedwait 100 ⟨1700000000, 5⟩ ⟨1700000001, 5⟩).value = .wait 101 ∧
      (Call.request 100 ⟨1700000000, 5⟩ ⟨1700000001, 5⟩ .semTimedwait).Yields
        (Request.Meets (osSysNsPerSecond / 100) (ofTimespec ⟨1700000000, 5⟩)
          (ofTimespec ⟨1700000001, 5⟩)) := by
  refine ⟨by decide, ?_⟩
  refine (meets_iff .semTimedwait 100 (by decide) (by decide) _ _ (by decide) (by decide)).mpr ?_
  unfold Call.inRange
  decide

/-- With a tick of ten milliseconds a mutex is waited for ten times too long. -/
theorem milliseconds_for_ticks : ¬∀ (call : Call) (ticksPerSecond : Int) (now deadline : Timespec),
      ticksPerSecond ∣ 1000 → 0 < ticksPerSecond → validTimeSpec now = true →
        validTimeSpec deadline = true → (call.request ticksPerSecond now deadline).Yields
          (Request.Meets (osSysNsPerSecond / ticksPerSecond) (ofTimespec now)
            (ofTimespec deadline)) := fun right => by
  have meets := (right .mutexTimedlock 100 ⟨1700000000, 5⟩ ⟨1700000001, 5⟩ (by decide)
    (by decide) (by decide) (by decide)).value
  obtain ⟨ticks, same, -, long⟩ := meets.waits (by decide)
  have value : (Call.request 100 ⟨1700000000, 5⟩ ⟨1700000001, 5⟩ .mutexTimedlock).value =
      .wait 1000 := by decide
  obtain rfl := Request.wait.inj (value.symm.trans same)
  exact absurd (long (by decide)).2 (by decide)

end TowerSafe.Deadline
