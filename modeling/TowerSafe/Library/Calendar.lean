/-
This file is a small library of the Gregorian calendar, continued in both directions: the lengths of
years and months, dates, and the number of the day that a date is. Days are counted from the first
of January 1970, and each number is that of a date.
-/

import Mathlib.Data.Int.Order.Basic
import Mathlib.Data.List.GetD
import Mathlib.Tactic.IntervalCases

namespace TowerSafe.Library.Calendar

/-! ### Years -/

/-- Every fourth year has a leap day, but not every hundredth, and yet every four hundredth. -/
def isLeap (year : Int) : Bool :=
  decide (year % 4 = 0 ∧ (year % 100 ≠ 0 ∨ year % 400 = 0))

def daysInYear (year : Int) : Int := if isLeap year then 366 else 365

def leapsThrough (year : Int) : Int := year / 4 - year / 100 + year / 400

/-- The days from the beginning of 1970 to the beginning of a year. -/
def daysBefore (year : Int) : Int :=
  365 * (year - 1970) + leapsThrough (year - 1) - leapsThrough 1969

theorem daysBefore_epoch : daysBefore 1970 = 0 := by decide

theorem daysBefore_succ (year : Int) :
    daysBefore (year + 1) = daysBefore year + daysInYear year := by
  simp only [daysBefore, leapsThrough, daysInYear, isLeap, decide_eq_true_eq]
  split <;> omega

theorem daysInYear_bounds (year : Int) : 365 ≤ daysInYear year ∧ daysInYear year ≤ 366 := by
  rw [daysInYear]
  split <;> omega

theorem daysBefore_gap {first last : Int} (order : first ≤ last) :
    365 * (last - first) ≤ daysBefore last - daysBefore first ∧
      daysBefore last - daysBefore first ≤ 365 * (last - first) + (last - first) / 4 + 1 := by
  simp only [daysBefore, leapsThrough]
  omega

/-! ### Months -/

def daysInMonth (leap : Bool) (month : Nat) : Int :=
  [31, if leap then 29 else 28, 31, 30, 31, 30, 31, 31, 30, 31, 30, 31].getD month 0

def daysBeforeMonth (leap : Bool) : Nat → Int
  | 0 => 0
  | month + 1 => daysBeforeMonth leap month + daysInMonth leap month

theorem daysBeforeMonth_year (year : Int) : daysBeforeMonth (isLeap year) 12 = daysInYear year := by
  rw [daysInYear]
  cases isLeap year <;> decide

theorem daysInMonth_nonneg (leap : Bool) (month : Nat) : 0 ≤ daysInMonth leap month := by
  by_cases inside : month < 12
  · cases leap <;> interval_cases month <;> decide
  · rw [daysInMonth, List.getD_eq_default _ _ (by simpa using inside)]

theorem daysBeforeMonth_mono (leap : Bool) {first last : Nat} (order : first ≤ last) :
    daysBeforeMonth leap first ≤ daysBeforeMonth leap last := by
  induction order with
  | refl => exact le_rfl
  | @step month _ hypothesis =>
    have some_ := daysInMonth_nonneg leap month
    rw [daysBeforeMonth]
    omega

/-! ### Dates -/

/-- A date. The first month is 0, and the first day is 1. -/
@[ext]
structure Date where
  year : Int
  month : Nat
  day : Int
  month_lt : month < 12
  day_pos : 1 ≤ day
  day_le : day ≤ daysInMonth (isLeap year) month

namespace Date

def dayOfYear (date : Date) : Int := daysBeforeMonth (isLeap date.year) date.month + date.day - 1

def number (date : Date) : Int := daysBefore date.year + date.dayOfYear

/-- The day of the week, from Sunday on. The first of January 1970 was a Thursday. -/
def weekday (date : Date) : Int := (4 + date.number) % 7

theorem dayOfYear_month (date : Date) :
    daysBeforeMonth (isLeap date.year) date.month ≤ date.dayOfYear ∧
      date.dayOfYear < daysBeforeMonth (isLeap date.year) (date.month + 1) := by
  have first := date.day_pos
  have last := date.day_le
  rw [dayOfYear, daysBeforeMonth]
  omega

theorem dayOfYear_bounds (date : Date) :
    0 ≤ date.dayOfYear ∧ date.dayOfYear < daysInYear date.year := by
  obtain ⟨first, last⟩ := date.dayOfYear_month
  have start := daysBeforeMonth_mono (isLeap date.year) (Nat.zero_le date.month)
  have stop := daysBeforeMonth_mono (isLeap date.year) date.month_lt
  rw [daysBeforeMonth_year] at stop
  exact ⟨start.trans first, last.trans_le stop⟩

end Date

end TowerSafe.Library.Calendar
