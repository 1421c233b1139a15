import Mathlib

/-! Dates of the Gregorian calendar, and the days they are from the epoch. -/

namespace Loglib

/-- Whether a year has a 29th of February. -/
def isLeapYear (year : Nat) : Bool := year % 4 = 0 && (year % 100 ≠ 0 || year % 400 = 0)

/-- The length of a month, which is zero outside the calendar. -/
def daysInMonth (year month : Nat) : Nat :=
  [0, 31, if isLeapYear year then 29 else 28, 31, 30, 31, 30, 31, 31, 30, 31, 30, 31].getD month 0

/-- `year_month_day::ok`. -/
def isDate (year month day : Nat) : Bool :=
  1 ≤ month && month ≤ 12 && 1 ≤ day && day ≤ daysInMonth year month

/-- `sys_days`: the days from 1970-01-01. Years start in March, and eras have 400 years. -/
def sysDays (year month day : Nat) : Int :=
  let marchYear : Int := if month ≤ 2 then (year : Int) - 1 else year
  let era := marchYear / 400
  let yearOfEra := marchYear % 400
  let monthFromMarch : Int := if 2 < month then (month : Int) - 3 else month + 9
  let dayOfYear := (153 * monthFromMarch + 2) / 5 + day - 1
  let dayOfEra := yearOfEra * 365 + yearOfEra / 4 - yearOfEra / 100 + dayOfYear
  era * 146097 + dayOfEra - 719468

example : sysDays 1970 1 1 = 0 ∧ sysDays 2000 3 1 = 11017 := by decide

end Loglib
