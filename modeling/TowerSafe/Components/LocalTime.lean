/-
This file embeds `localtime_r` and `mktime` of `time.c`, with every sum in its type and every loop
with its turns: the correction of a guessed year ends at the date of the calendar, and `mktime` gets
the time back exactly when the year of the date is an `INT32`.
-/

import TowerSafe.Library.Calendar
import TowerSafe.Library.Computed

namespace TowerSafe.LocalTime

open Library Library.Computed Library.Calendar

/-! ### The calls -/

/-- `struct tm`. The zone is a pointer. -/
structure Tm where
  tmSec : Int
  tmMin : Int
  tmHour : Int
  tmMday : Int
  tmMon : Int
  tmYear : Int
  tmWday : Int
  tmYday : Int
  tmIsdst : Int
  tmGmtoff : Int
  tmZone : Nat
  deriving DecidableEq

def tmYearBase : Int := 1900

def epochYear : Int := 1970

def secsPerMin : Int := 60

def secsPerHour : Int := 3600

def secsPerDay : Int := 86400

def secsPerNormalYear : Int := 31536000

def daysPerWeek : Int := 7

def daysPerNormalYear : Int := 365

def daysPerLeapYear : Int := 366

def beginWeekday : Int := 4

def timeZoneMax : Int := 720

def timeZoneMin : Int := -840

def gDaysInMonth (leap : Bool) : List Int :=
  if leap then [0, 31, 60, 91, 121, 152, 182, 213, 244, 274, 305, 335, 366]
  else [0, 31, 59, 90, 120, 151, 181, 212, 243, 273, 304, 334, 365]

def gMontbl : List Int := [31, 28, 31, 30, 31, 30, 31, 31, 30, 31, 30, 31]

def isLeapYear (year : Int) : Bool :=
  year.tmod 4 == 0 && (year.tmod 100 != 0 || year.tmod 400 == 0)

def div (a b : Int) : Int := a.tdiv b - if a.tmod b < 0 then 1 else 0

def leapsThruEndOf (y : Int) : Int := div y 4 - div y 100 + div y 400

/-- A number that is stored in an `int`. -/
def toInt (number : Int) : Int := Int.bmod number (2 ^ 32)

/-- A turn of the loop for a negative `rem`, of the days and `rem`. -/
def raiseRem (state : Int × Int) : Option (Computed (Int × Int)) :=
  if state.2 < 0 then some do
    let rem ← signed 64 (state.2 + secsPerDay)
    let days ← signed 64 (state.1 - 1)
    pure (days, rem)
  else none

/-- A turn of the loop for a `rem` of a day or more. -/
def lowerRem (state : Int × Int) : Option (Computed (Int × Int)) :=
  if secsPerDay ≤ state.2 then some do
    let rem ← signed 64 (state.2 - secsPerDay)
    let days ← signed 64 (state.1 + 1)
    pure (days, rem)
  else none

/-- The day, and the second of the day. -/
def splitSeconds (fuel : Nat) (t offset : Int) : Computed (Int × Int) := do
  let rem ← signed 64 (t.tmod secsPerDay + offset)
  let state ← whileLoop raiseRem fuel (t.tdiv secsPerDay, rem)
  whileLoop lowerRem fuel state

/-- `tm_wday` of a day. -/
def weekdayOf (days : Int) : Computed Int := do
  let sum ← signed 64 (beginWeekday + days)
  let wday := toInt (sum.tmod daysPerWeek)
  if wday < 0 then signed 32 (wday + daysPerWeek) else pure wday

/-- A turn of the loop that corrects the guessed year, of the days of the year and the year. -/
def correctYear (state : Int × Int) : Option (Computed (Int × Int)) :=
  if state.1 < 0 ∨
      (if isLeapYear state.2 then daysPerLeapYear else daysPerNormalYear) ≤ state.1 then
    some do
      let guess ← signed 64 (state.2 + state.1.tdiv daysPerNormalYear)
      let yearGuess ← signed 64 (guess - if state.1.tmod daysPerNormalYear < 0 then 1 else 0)
      let years ← signed 64 (yearGuess - state.2)
      let normal ← signed 64 (years * daysPerNormalYear)
      let sum ← signed 64 (normal + leapsThruEndOf (yearGuess - 1))
      let all ← signed 64 (sum - leapsThruEndOf (state.2 - 1))
      let days ← signed 64 (state.1 - all)
      pure (days, yearGuess)
  else none

/-- A turn of the loop that searches the month of a day of the year. -/
def lowerMonth (leap : Bool) (days month : Int) : Option (Computed Int) :=
  if days < (gDaysInMonth leap).getD month.toNat 0 then some (signed 64 (month - 1)) else none

/-- The date of a day of a year. -/
def setDate (fuel : Nat) (offset days year : Int) (tp : Tm) : Computed (Bool × Tm) := do
  let years ← signed 64 (year - tmYearBase)
  let tp := { tp with tmYear := toInt years }
  if tp.tmYear ≠ years then pure (false, tp)
  else
    let month ← whileLoop (lowerMonth (isLeapYear year) days) fuel 11
    let rest ← signed 64 (days - (gDaysInMonth (isLeapYear year)).getD month.toNat 0)
    let day ← signed 64 (rest + 1)
    pure (true, { tp with
      tmYday := toInt days, tmMon := toInt month, tmMday := toInt day, tmGmtoff := offset,
      tmZone := 0, tmIsdst := 0 })

def convertSecs2Utc (fuel : Nat) (t offset : Int) (tp : Tm) : Computed (Bool × Tm) := do
  let split ← splitSeconds fuel t offset
  let rest := split.2.tmod secsPerHour
  let wday ← weekdayOf split.1
  let tp := { tp with
    tmHour := toInt (split.2.tdiv secsPerHour), tmMin := toInt (rest.tdiv secsPerMin),
    tmSec := toInt (rest.tmod secsPerMin), tmWday := wday }
  let state ← whileLoop correctYear fuel (split.1, epochYear)
  setDate fuel offset state.1 state.2 tp

/-- `localtime_r`, with `g_timezone` and a result that is overwritten. -/
def localtimeR (fuel : Nat) (timezone t : Int) (result : Tm) : Computed (Option Tm) := do
  let converted ← convertSecs2Utc fuel t (-timezone) result
  pure (if converted.1 then some converted.2 else none)

/-- A turn of the loop over the years, of the year and the seconds. -/
def addYear (tmYear : Int) (state : Int × Int) : Option (Computed (Int × Int)) :=
  if state.1 < tmYear then some do
    let normal ← signed 64 (state.2 + secsPerNormalYear)
    let full ← signed 32 (state.1 + tmYearBase)
    let seconds ← signed 64 (normal + if isLeapYear full then secsPerDay else 0)
    let year ← signed 32 (state.1 + 1)
    pure (year, seconds)
  else none

/-- A turn of the loop over the months, of the month and the seconds. -/
def addMonth (tmMon : Int) (leap : Bool) (state : Int × Int) : Option (Computed (Int × Int)) :=
  if state.1 < tmMon then some do
    let days ← signed 32 (gMontbl.getD state.1.toNat 0 + if state.1 = 1 ∧ leap then 1 else 0)
    let length ← signed 32 (days * secsPerDay)
    let seconds ← signed 64 (state.2 + length)
    let month ← signed 32 (state.1 + 1)
    pure (month, seconds)
  else none

def convertUtc2Secs (fuel : Nat) (timezone : Int) (tm : Tm) : Computed Int := do
  let years ← whileLoop (addYear tm.tmYear) fuel (epochYear - tmYearBase, 0)
  let full ← signed 32 (tm.tmYear + tmYearBase)
  let months ← whileLoop (addMonth tm.tmMon (isLeapYear full)) fuel (0, years.2)
  let days ← signed 32 (tm.tmMday - 1)
  let length ← signed 32 (days * secsPerDay)
  let date ← signed 64 (months.2 + length)
  let hours ← signed 32 (tm.tmHour * secsPerHour)
  let minutes ← signed 32 (tm.tmMin * secsPerMin)
  let time ← signed 32 (hours + minutes)
  let clock ← signed 32 (time + tm.tmSec)
  let seconds ← signed 64 (date + clock)
  signed 64 (seconds + timezone)

/-- What `mktime` refuses. -/
def refused (tm : Tm) : Prop :=
  tm.tmYear < epochYear - tmYearBase ∨ -timeZoneMin * secsPerMin < tm.tmGmtoff ∨
    tm.tmGmtoff < -timeZoneMax * secsPerMin ∨ 60 < tm.tmSec ∨ tm.tmSec < 0 ∨ 59 < tm.tmMin ∨
    tm.tmMin < 0 ∨ 23 < tm.tmHour ∨ tm.tmHour < 0 ∨ 31 < tm.tmMday ∨ tm.tmMday < 1 ∨
    11 < tm.tmMon ∨ tm.tmMon < 0

instance (tm : Tm) : Decidable (refused tm) := by
  unfold refused
  infer_instance

/-- `mktime`, with `g_timezone`. -/
def mktime (fuel : Nat) (timezone : Int) (tm : Tm) : Computed (Int × Tm) := do
  if refused tm then pure (-1, tm)
  else
    let timeInSeconds ← convertUtc2Secs fuel timezone tm
    let converted ← convertSecs2Utc fuel timeInSeconds (-timezone) tm
    pure (timeInSeconds, converted.2)

/-! ### Numbers -/

theorem div_eq (a : Int) {b : Int} (positive : 0 < b) : div a b = a / b := by
  have whole := Int.tmod_add_mul_tdiv a b
  have least := Int.lt_tmod_of_pos a positive
  have most := Int.tmod_lt_of_pos a positive
  rw [div]
  split
  · have sum : a.tmod b + b + b * (a.tdiv b - 1) = a := by
      rw [Int.mul_sub]
      omega
    exact ((Int.ediv_emod_unique positive).mpr ⟨sum, by omega, by omega⟩).1.symm
  · rw [Int.sub_zero]
    exact ((Int.ediv_emod_unique positive).mpr ⟨whole, by omega, most⟩).1.symm

theorem leapsThruEndOf_eq (y : Int) : leapsThruEndOf y = leapsThrough y := by
  rw [leapsThruEndOf, div_eq y (by decide), div_eq y (by decide), div_eq y (by decide),
    leapsThrough]

theorem isLeapYear_eq (year : Int) : isLeapYear year = isLeap year := by
  have rem : ∀ divisor : Int, year.tmod divisor = 0 ↔ year % divisor = 0 := fun divisor =>
    Int.dvd_iff_tmod_eq_zero.symm.trans Int.dvd_iff_emod_eq_zero
  rw [Bool.eq_iff_iff, isLeapYear, isLeap, decide_eq_true_eq, Bool.and_eq_true, Bool.or_eq_true,
    beq_iff_eq, bne_iff_ne, beq_iff_eq, ne_eq, rem, rem, rem]

theorem toInt_eq {number : Int} (small : -2 ^ 31 ≤ number ∧ number < 2 ^ 31) :
    toInt number = number :=
  Int.bmod_eq_of_le_mul_two (by omega) (by omega)

/-! ### Days -/

/-- Some days and seconds that a time is, the seconds between two numbers. -/
def Splits (time least most : Int) (state : Int × Int) : Prop :=
  86400 * state.1 + state.2 = time ∧ least ≤ state.2 ∧ state.2 < most

variable {fuel : Nat} {state : Int × Int}

theorem raiseRem_yields {time : Int} (enough : 2 ^ 19 ≤ fuel)
    (range : -2 ^ 64 ≤ time ∧ time < 2 ^ 64) (splits : Splits time (-2 ^ 18) (2 ^ 18) state) :
    (whileLoop raiseRem fuel state).Yields (Splits time 0 (2 ^ 18)) := by
  refine yields_whileLoop (Splits time (-2 ^ 18) (2 ^ 18)) (fun state => (-state.2).toNat)
    (fun state splits result => ?_) (fun state next splits result => ?_) splits ?_
  · rw [raiseRem] at result
    split at result
    · cases result
    · next low => exact ⟨splits.1, Int.not_lt.mp low, splits.2.2⟩
  · rw [raiseRem] at result
    split at result
    · next low =>
      obtain rfl := Option.some.inj result
      obtain ⟨sum, least, most⟩ := splits
      simp only [yields_bind, yields_signed, yields_pure, Splits, secsPerDay]
      omega
    · cases result
  · have least := splits.2.1
    omega

theorem lowerRem_yields {time : Int} (enough : 2 ^ 19 ≤ fuel)
    (range : -2 ^ 64 ≤ time ∧ time < 2 ^ 64) (splits : Splits time 0 (2 ^ 18) state) :
    (whileLoop lowerRem fuel state).Yields (Splits time 0 86400) := by
  refine yields_whileLoop (Splits time 0 (2 ^ 18)) (fun state => state.2.toNat)
    (fun state splits result => ?_) (fun state next splits result => ?_) splits ?_
  · rw [lowerRem] at result
    split at result
    · cases result
    · next high => exact ⟨splits.1, splits.2.1, Int.not_le.mp high⟩
  · rw [lowerRem] at result
    split at result
    · next high =>
      obtain rfl := Option.some.inj result
      obtain ⟨sum, least, most⟩ := splits
      unfold secsPerDay at high
      simp only [yields_bind, yields_signed, yields_pure, Splits, secsPerDay]
      omega
    · cases result
  · have most := splits.2.2
    omega

variable {t offset : Int}

theorem splitSeconds_yields (enough : 2 ^ 19 ≤ fuel)
    (range : -2 ^ 63 ≤ t ∧ t < 2 ^ 63) (accepted : -43200 ≤ offset ∧ offset ≤ 50400) :
    (splitSeconds fuel t offset).Yields (Splits (t + offset) 0 86400) := by
  have whole := Int.tmod_add_mul_tdiv t secsPerDay
  have least := Int.lt_tmod_of_pos t (show 0 < secsPerDay by decide)
  have most := Int.tmod_lt_of_pos t (show 0 < secsPerDay by decide)
  unfold secsPerDay at whole least most
  have time : -2 ^ 64 ≤ t + offset ∧ t + offset < 2 ^ 64 := by omega
  have start : Splits (t + offset) (-2 ^ 18) (2 ^ 18)
      (t.tdiv secsPerDay, t.tmod secsPerDay + offset) := by
    simp only [Splits, secsPerDay]
    omega
  rw [splitSeconds, yields_bind, yields_signed, yields_bind]
  unfold secsPerDay at start ⊢
  refine ⟨by omega, (raiseRem_yields enough time start).mono fun state splits => ?_⟩
  exact lowerRem_yields enough time splits

variable {days : Int}

theorem weekdayOf_yields (range : -2 ^ 60 ≤ days ∧ days < 2 ^ 60) :
    (weekdayOf days).Yields (· = (4 + days) % 7) := by
  have whole := Int.tmod_add_mul_tdiv (beginWeekday + days) daysPerWeek
  have least := Int.lt_tmod_of_pos (beginWeekday + days) (show 0 < daysPerWeek by decide)
  have most := Int.tmod_lt_of_pos (beginWeekday + days) (show 0 < daysPerWeek by decide)
  have four : beginWeekday = 4 := rfl
  have seven : daysPerWeek = 7 := rfl
  rw [weekdayOf, yields_bind, yields_signed]
  refine ⟨by omega, ?_⟩
  dsimp only
  rw [toInt_eq (by omega)]
  unfold beginWeekday daysPerWeek at *
  split
  · exact yields_signed.mpr (by omega)
  · exact yields_pure.mpr (by omega)

/-! ### The guessed year -/

/-- The years between two, and half a year more where the first day or the last day of the right
year lets the guess go past it. -/
def distance (date : Date) (year : Int) : Nat :=
  2 * (year - date.year).natAbs +
    if (year < date.year ∧ 364 ≤ date.dayOfYear) ∨ (date.year < year ∧ date.dayOfYear = 0) then 1
    else 0

/-- The days from the beginning of a year to a date, in the range of the turns before. -/
def Guesses (date : Date) (state : Int × Int) : Prop :=
  daysBefore state.2 + state.1 = date.number ∧
    (state.2 - date.year).natAbs ≤ (1970 - date.year).natAbs

variable {date : Date} {year : Int}

theorem guess_nearer (sum : daysBefore year + days = date.number)
    (wrong : days < 0 ∨ daysInYear year ≤ days) :
    distance date (year + days / 365) < distance date year := by
  have inYear := date.dayOfYear_bounds
  have next := daysBefore_succ date.year
  have length := daysInYear_bounds date.year
  rw [Date.number] at sum
  rw [distance, distance]
  rcases lt_trichotomy year date.year with before | rfl | after
  · have gap := daysBefore_gap (Int.le_of_lt before)
    split <;> split <;> omega
  · omega
  · have gap := daysBefore_gap (Int.le_of_lt after)
    have later := daysBefore_gap (Int.add_one_le_of_lt after)
    split <;> split <;> omega

theorem year_bounds (range : -2 ^ 60 ≤ date.number ∧ date.number < 2 ^ 60) :
    -2 ^ 52 ≤ date.year ∧ date.year < 2 ^ 52 := by
  have inYear := date.dayOfYear_bounds
  have length := daysInYear_bounds date.year
  have epoch := daysBefore_epoch
  unfold Date.number at range
  rcases Int.le_total 1970 date.year with later | earlier
  · have gap := daysBefore_gap later
    omega
  · have gap := daysBefore_gap earlier
    omega

theorem year_unique (sum : daysBefore year + days = date.number)
    (least : 0 ≤ days) (most : days < daysInYear year) :
    days = date.dayOfYear ∧ year = date.year := by
  have inYear := date.dayOfYear_bounds
  have next := daysBefore_succ date.year
  have after := daysBefore_succ year
  rw [Date.number] at sum
  rcases lt_trichotomy year date.year with before | rfl | behind
  · have gap := daysBefore_gap (Int.add_one_le_of_lt before)
    omega
  · omega
  · have gap := daysBefore_gap (Int.add_one_le_of_lt behind)
    omega

theorem length_eq (year : Int) :
    (if isLeapYear year then daysPerLeapYear else daysPerNormalYear) = daysInYear year := by
  rw [isLeapYear_eq, daysInYear, daysPerLeapYear, daysPerNormalYear]

theorem leapsThrough_bounds (small : -2 ^ 54 ≤ year ∧ year < 2 ^ 54) :
    -2 ^ 54 ≤ leapsThrough year ∧ leapsThrough year < 2 ^ 54 := by
  rw [leapsThrough]
  omega

theorem correctYear_turn {next : Computed (Int × Int)}
    (years : -2 ^ 52 ≤ date.year ∧ date.year < 2 ^ 52)
    (range : -2 ^ 60 ≤ date.number ∧ date.number < 2 ^ 60) (guesses : Guesses date state)
    (result : correctYear state = some next) : next.Yields fun after =>
      Guesses date after ∧ distance date after.2 < distance date state.2 := by
  obtain ⟨days, year⟩ := state
  obtain ⟨sum, near⟩ := guesses
  dsimp only at sum near
  rw [correctYear, length_eq] at result
  split at result
  · next wrong =>
    obtain rfl := Option.some.inj result
    have nearer := guess_nearer sum wrong
    have guess : year + days.tdiv daysPerNormalYear -
        (if days.tmod daysPerNormalYear < 0 then 1 else 0) = year + days / 365 := by
      rw [Int.add_sub_assoc]
      exact congrArg (year + ·) (div_eq days (show 0 < daysPerNormalYear by decide))
    have kept : (year + days / 365 - date.year).natAbs ≤ (year - date.year).natAbs := by
      unfold distance at nearer
      split at nearer <;> split at nearer <;> omega
    have leaps := @leapsThrough_bounds (year - 1) (by omega)
    have guessed := @leapsThrough_bounds (year + days / 365 - 1) (by omega)
    simp only [yields_bind, yields_signed, yields_pure, guess, leapsThruEndOf_eq, Guesses]
    unfold daysPerNormalYear daysBefore at *
    refine ⟨by omega, by omega, by omega, by omega, by omega, by omega, by omega, ⟨by omega, ?_⟩,
      nearer⟩
    exact kept.trans near
  · cases result

theorem correctYear_yields
    (range : -2 ^ 60 ≤ date.number ∧ date.number < 2 ^ 60) (enough : 2 ^ 60 ≤ fuel) :
    (whileLoop correctYear fuel (date.number, epochYear)).Yields
      (· = (date.dayOfYear, date.year)) := by
  have years := year_bounds range
  refine yields_whileLoop (Guesses date) (fun state => distance date state.2)
    (fun state guesses result => ?_)
    (fun state next guesses result => correctYear_turn years range guesses result) ?_ ?_
  · rw [correctYear, length_eq] at result
    split at result
    · cases result
    next right =>
    rw [not_or] at right
    have same := year_unique guesses.1 (Int.not_lt.mp right.1) (Int.not_le.mp right.2)
    exact Prod.ext same.1 same.2
  · exact ⟨by rw [epochYear, daysBefore_epoch, Int.zero_add], le_rfl⟩
  · unfold distance epochYear
    split <;> omega

/-! ### The date -/

theorem gDaysInMonth_eq (leap : Bool) {month : Nat} (inside : month < 13) :
    (gDaysInMonth leap).getD month 0 = daysBeforeMonth leap month := by
  cases leap <;> interval_cases month <;> rfl

theorem lowerMonth_yields (enough : 12 ≤ fuel) :
    (whileLoop (lowerMonth (isLeapYear date.year) date.dayOfYear) fuel 11).Yields
      (· = (date.month : Int)) := by
  obtain ⟨first, last⟩ := date.dayOfYear_month
  refine yields_whileLoop (fun month : Int => ∃ index : Nat, month = index ∧
    date.month ≤ index ∧ index ≤ 11) Int.toNat (fun month holds result => ?_)
    (fun month next holds result => ?_) ?_ ?_
  · obtain ⟨index, rfl, least, most⟩ := holds
    rw [lowerMonth, isLeapYear_eq, Int.toNat_natCast, gDaysInMonth_eq _ (by omega)] at result
    split at result
    · cases result
    next below =>
    refine congrArg _ (Nat.le_antisymm (Nat.not_lt.mp fun later => ?_) least)
    have order := daysBeforeMonth_mono (isLeap date.year) (show date.month + 1 ≤ index from later)
    omega
  · obtain ⟨index, rfl, least, most⟩ := holds
    rw [lowerMonth, isLeapYear_eq, Int.toNat_natCast, gDaysInMonth_eq _ (by omega)] at result
    split at result
    · next above =>
      obtain rfl := Option.some.inj result
      have later : date.month ≠ index := by
        rintro rfl
        omega
      rw [yields_signed]
      exact ⟨by omega, ⟨index - 1, by omega, by omega, by omega⟩, by omega⟩
    · cases result
  · exact ⟨11, rfl, by have inside := date.month_lt; omega, le_rfl⟩
  · omega

/-- The time of a second of a date, in a zone so many seconds east. -/
def localTm (date : Date) (second offset : Int) : Tm where
  tmSec := second % 60
  tmMin := second % 3600 / 60
  tmHour := second / 3600
  tmMday := date.day
  tmMon := date.month
  tmYear := date.year - 1900
  tmWday := date.weekday
  tmYday := date.dayOfYear
  tmIsdst := 0
  tmGmtoff := offset
  tmZone := 0

theorem day_bounds (date : Date) : 1 ≤ date.day ∧ date.day ≤ 31 := by
  have inside := date.month_lt
  have last := date.day_le
  refine ⟨date.day_pos, last.trans ?_⟩
  generalize isLeap date.year = leap
  generalize date.month = month at inside
  cases leap <;> interval_cases month <;> decide

theorem setDate_yields (enough : 12 ≤ fuel)
    (fits : -2 ^ 31 ≤ date.year - 1900 ∧ date.year - 1900 < 2 ^ 31) (offset : Int) (tp : Tm) :
    (setDate fuel offset date.dayOfYear date.year tp).Yields (· = (true, { tp with
      tmMday := date.day, tmMon := date.month, tmYear := date.year - 1900,
      tmYday := date.dayOfYear, tmIsdst := 0, tmGmtoff := offset, tmZone := 0 })) := by
  have inYear := date.dayOfYear_bounds
  have length := daysInYear_bounds date.year
  have inMonth := day_bounds date
  have inside := date.month_lt
  have position : date.dayOfYear =
      daysBeforeMonth (isLeap date.year) date.month + date.day - 1 := rfl
  rw [setDate, yields_bind, yields_signed, tmYearBase]
  refine ⟨by omega, ?_⟩
  rw [toInt_eq fits, if_neg (not_not.mpr rfl), yields_bind]
  refine (lowerMonth_yields enough).mono fun month same => ?_
  subst same
  rw [isLeapYear_eq, Int.toNat_natCast, gDaysInMonth_eq _ (by omega)]
  simp only [yields_bind, yields_signed, yields_pure]
  refine ⟨by omega, by omega, ?_⟩
  rw [toInt_eq (by omega), toInt_eq (by omega), toInt_eq (by omega)]
  have day : date.dayOfYear - daysBeforeMonth (isLeap date.year) date.month + 1 = date.day := by
    omega
  rw [day]

/-- What the theorems assume of a time: it has 64 bits, the offset is one that is accepted, the
time there is a second of a date, and the year of the date is one that `tm_year` has. -/
structure Accepted (t offset : Int) (date : Date) (second : Int) : Prop where
  range : -2 ^ 63 ≤ t ∧ t < 2 ^ 63
  zone : -43200 ≤ offset ∧ offset ≤ 50400
  inDay : 0 ≤ second ∧ second < 86400
  sum : 86400 * date.number + second = t + offset
  fits : -2 ^ 31 ≤ date.year - 1900 ∧ date.year - 1900 < 2 ^ 31

variable {second : Int}

theorem convertSecs2Utc_yields
    (enough : 2 ^ 60 ≤ fuel) (accepted : Accepted t offset date second) (tp : Tm) :
    (convertSecs2Utc fuel t offset tp).Yields (· = (true, localTm date second offset)) := by
  obtain ⟨range, zone, inDay, sum, fits⟩ := accepted
  rw [convertSecs2Utc, yields_bind]
  refine (splitSeconds_yields (by omega) range zone).mono fun split splits => ?_
  obtain ⟨total, least, most⟩ := splits
  have days : split.1 = date.number := by omega
  have rem : split.2 = second := by omega
  rw [yields_bind, days, rem]
  refine (weekdayOf_yields (by omega)).mono fun wday same => ?_
  subst same
  rw [yields_bind]
  refine (correctYear_yields (by omega) enough).mono fun state same => ?_
  subst same
  have hour : second.tdiv secsPerHour = second / 3600 := Int.tdiv_eq_ediv_of_nonneg inDay.1
  have rest : second.tmod secsPerHour = second % 3600 := Int.tmod_eq_emod_of_nonneg inDay.1
  have minute : (second % 3600).tdiv secsPerMin = second % 3600 / 60 :=
    Int.tdiv_eq_ediv_of_nonneg (by omega)
  have left : (second % 3600).tmod secsPerMin = second % 60 := by
    rw [Int.tmod_eq_emod_of_nonneg (by omega), secsPerMin]
    omega
  rw [hour, rest, minute, left, toInt_eq (by omega), toInt_eq (by omega), toInt_eq (by omega)]
  exact setDate_yields (by omega) fits offset _

theorem localtimeR_yields
    (enough : 2 ^ 60 ≤ fuel) (accepted : Accepted t offset date second) (result : Tm) :
    (localtimeR fuel (-offset) t result).Yields (· = some (localTm date second offset)) := by
  rw [localtimeR, Int.neg_neg, yields_bind]
  refine (convertSecs2Utc_yields enough accepted result).mono fun converted same => ?_
  subst same
  exact yields_pure.mpr rfl

/-! ### The seconds of a date -/

theorem addYear_yields (enough : 2 ^ 32 ≤ fuel) (range : 1970 ≤ year ∧ year ≤ 2147483647) :
    (whileLoop (addYear (year - 1900)) fuel (epochYear - tmYearBase, 0)).Yields
      (·.2 = 86400 * daysBefore year) := by
  refine yields_whileLoop (fun state => 70 ≤ state.1 ∧ state.1 ≤ year - 1900 ∧
    state.2 = 86400 * daysBefore (state.1 + 1900)) (fun state => (year - 1900 - state.1).toNat)
    (fun state holds result => ?_) (fun state next holds result => ?_) ?_ ?_
  · obtain ⟨-, most, seconds⟩ := holds
    rw [addYear] at result
    split at result
    · cases result
    · next last =>
      have same : state.1 + 1900 = year := by omega
      rw [seconds, same]
  · obtain ⟨least, most, seconds⟩ := holds
    rw [addYear] at result
    split at result
    · next before =>
      obtain rfl := Option.some.inj result
      have gap := @daysBefore_gap 1970 (state.1 + 1900) (by omega)
      have longer := daysBefore_succ (state.1 + 1900)
      have length : secsPerNormalYear + (if isLeapYear (state.1 + tmYearBase) then secsPerDay
          else 0) = 86400 * daysInYear (state.1 + 1900) := by
        rw [isLeapYear_eq, tmYearBase, daysInYear]
        cases isLeap (state.1 + 1900) <;> rfl
      have bounds := daysInYear_bounds (state.1 + 1900)
      have next_ : state.1 + 1 + 1900 = state.1 + 1900 + 1 := by omega
      have sum : state.2 + secsPerNormalYear + (if isLeapYear (state.1 + tmYearBase) then
          secsPerDay else 0) = 86400 * daysBefore (state.1 + 1900 + 1) := by
        rw [Int.add_assoc, length, seconds, longer, Int.mul_add]
      rw [daysBefore_epoch] at gap
      simp only [yields_bind, yields_signed, yields_pure, next_, sum]
      unfold secsPerNormalYear tmYearBase
      exact ⟨by omega, by omega, by omega, by omega, ⟨by omega, by omega, trivial⟩, by omega⟩
    · cases result
  · exact ⟨by decide, by rw [epochYear, tmYearBase]; omega, rfl⟩
  · simp only [epochYear, tmYearBase]
    omega

theorem gMontbl_eq (leap : Bool) {month : Nat} (inside : month < 12) :
    (gMontbl.getD month 0 + if (month : Int) = 1 ∧ leap then 1 else 0) =
      daysInMonth leap month := by
  cases leap <;> interval_cases month <;> rfl

theorem addMonth_yields {leap : Bool} {month : Nat} {start : Int}
    (enough : 12 ≤ fuel) (inside : month < 12) (range : 0 ≤ start ∧ start < 2 ^ 62) :
    (whileLoop (addMonth month leap) fuel (0, start)).Yields
      (·.2 = start + 86400 * daysBeforeMonth leap month) := by
  refine yields_whileLoop (fun state : Int × Int => ∃ index : Nat, state.1 = index ∧
    index ≤ month ∧ state.2 = start + 86400 * daysBeforeMonth leap index)
    (fun state => (month - state.1).toNat) (fun state holds result => ?_)
    (fun state next holds result => ?_) ?_ ?_
  · obtain ⟨index, here, most, seconds⟩ := holds
    rw [addMonth] at result
    split at result
    · cases result
    · next last =>
      have same : index = month := by omega
      rw [seconds, same]
  · obtain ⟨index, here, most, seconds⟩ := holds
    rw [addMonth, here, Int.toNat_natCast] at result
    split at result
    · next before =>
      obtain rfl := Option.some.inj result
      have few := daysBeforeMonth_mono leap (show index + 1 ≤ 12 by omega)
      have first := daysBeforeMonth_mono leap (Nat.zero_le index)
      have some_ := daysInMonth_nonneg leap index
      have year : daysBeforeMonth leap 12 ≤ 366 := by cases leap <;> decide
      have longer : daysBeforeMonth leap (index + 1) =
          daysBeforeMonth leap index + daysInMonth leap index := rfl
      have none_ : daysBeforeMonth leap 0 = 0 := rfl
      rw [gMontbl_eq leap (by omega)]
      simp only [yields_bind, yields_signed, yields_pure, secsPerDay, seconds]
      exact ⟨by omega, by omega, by omega, by omega, ⟨index + 1, rfl, by omega, by omega⟩, by omega⟩
    · cases result
  · exact ⟨0, rfl, Nat.zero_le _, by rw [daysBeforeMonth]; omega⟩
  · omega

theorem convertUtc2Secs_yields (enough : 2 ^ 60 ≤ fuel) (accepted : Accepted t offset date second)
    (range : 1970 ≤ date.year ∧ date.year ≤ 2147483647) :
    (convertUtc2Secs fuel (-offset) (localTm date second offset)).Yields (· = t) := by
  have inMonth := day_bounds date
  have inDay := accepted.inDay
  have time := accepted.sum
  have known := accepted.range
  have position : date.number = daysBefore date.year + date.dayOfYear := rfl
  have ofYear : date.dayOfYear = daysBeforeMonth (isLeap date.year) date.month + date.day - 1 := rfl
  have gap := daysBefore_gap range.1
  have inYear := date.dayOfYear_bounds
  have length := daysInYear_bounds date.year
  rw [daysBefore_epoch] at gap
  rw [convertUtc2Secs, yields_bind]
  refine (addYear_yields (by omega) range).mono fun years counted => ?_
  have full : date.year - 1900 + tmYearBase = date.year := Int.sub_add_cancel _ _
  rw [yields_bind, yields_signed, yields_bind]
  dsimp only [localTm]
  rw [full, isLeapYear_eq]
  refine ⟨by omega, (addMonth_yields (by omega) date.month_lt (by omega)).mono fun months added =>
    ?_⟩
  simp only [yields_bind, yields_signed, secsPerDay, secsPerHour, secsPerMin]
  omega

theorem not_refused (accepted : Accepted t offset date second) (later : 1970 ≤ date.year) :
    ¬refused (localTm date second offset) := by
  have inMonth := day_bounds date
  have inside := date.month_lt
  obtain ⟨-, zone, inDay, -, -⟩ := accepted
  simp only [refused, localTm, epochYear, tmYearBase, timeZoneMin, timeZoneMax, secsPerMin]
  omega

theorem mktime_yields (enough : 2 ^ 60 ≤ fuel) (accepted : Accepted t offset date second)
    (range : 1970 ≤ date.year ∧ date.year ≤ 2147483647) :
    (mktime fuel (-offset) (localTm date second offset)).Yields
      (· = (t, localTm date second offset)) := by
  rw [mktime, if_neg (not_refused accepted range.1), yields_bind]
  refine (convertUtc2Secs_yields enough accepted range).mono fun seconds same => ?_
  subst same
  rw [Int.neg_neg, yields_bind]
  refine (convertSecs2Utc_yields enough accepted _).mono fun converted same => ?_
  subst same
  exact yields_pure.mpr rfl

theorem mktime_wraps (accepted : Accepted t offset date second) (later : 2147483647 < date.year) :
    (mktime fuel (-offset) (localTm date second offset)).fits = false := by
  have wraps : (signed 32 ((localTm date second offset).tmYear + tmYearBase)).fits = false := by
    refine decide_eq_false fun fits => ?_
    simp only [localTm, tmYearBase] at fits
    omega
  rw [mktime, if_neg (not_refused accepted (by omega)), fits_bind, convertUtc2Secs, fits_bind,
    fits_bind, wraps, Bool.false_and, Bool.and_false, Bool.false_and]

/-- With enough turns `localtime_r` gives the broken-down time of the date, and if its year is 1970
or later, `mktime` of that gives the time again and leaves the fields. -/
def Converts (t offset : Int) (date : Date) (second : Int) : Prop :=
  ∃ enough, ∀ fuel, enough ≤ fuel → ∀ result,
    (localtimeR fuel (-offset) t result).Yields (· = some (localTm date second offset)) ∧
      (1970 ≤ date.year → (mktime fuel (-offset) (localTm date second offset)).Yields
        (· = (t, localTm date second offset)))

theorem not_converts_of_later
    (accepted : Accepted t offset date second) (later : 2147483647 < date.year) :
    ¬Converts t offset date second := by
  rintro ⟨enough, converts⟩
  have fits := ((converts enough le_rfl (localTm date second offset)).2 (by omega)).fits
  rw [mktime_wraps accepted later] at fits
  cases fits

/-- The calls convert a time exactly when the year of its date is an `INT32`. -/
theorem converts_iff {t offset : Int} {date : Date} {second : Int}
    (accepted : Accepted t offset date second) :
    Converts t offset date second ↔ date.year ≤ 2147483647 := by
  refine ⟨fun converts => ?_, fun small => ⟨2 ^ 60, fun fuel enough result => ?_⟩⟩
  · exact Int.not_lt.mp fun later => not_converts_of_later accepted later converts
  · exact ⟨localtimeR_yields enough accepted result, fun later =>
      mktime_yields enough accepted ⟨later, small⟩⟩

/-- The 29th of February 2024 at eight in the morning, eight hours east. -/
def leapDay : Date := ⟨2024, 1, 29, by decide, by decide, by decide⟩

theorem converts_iff_sample :
    Accepted 1709164800 28800 leapDay 28800 ∧ Converts 1709164800 28800 leapDay 28800 :=
  have accepted : Accepted 1709164800 28800 leapDay 28800 :=
    ⟨by decide, by decide, by decide, by decide, by decide⟩
  ⟨accepted, (converts_iff accepted).mpr (by decide)⟩

/-- The first day of the first year that is no `INT32`. -/
def lateDay : Date := ⟨2147483648, 0, 1, by decide, by decide, by decide⟩

theorem late_year :
    Accepted 67767976233532800 0 lateDay 0 ∧ ¬Converts 67767976233532800 0 lateDay 0 :=
  have accepted : Accepted 67767976233532800 0 lateDay 0 :=
    ⟨by decide, by decide, by decide, by decide, by decide⟩
  ⟨accepted, not_converts_of_later accepted (by decide)⟩

end TowerSafe.LocalTime
