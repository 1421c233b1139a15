import Loglib.Numeric.CivilDate

/-! The date that a day count stands for, and that the count of this date is the day again. -/

namespace Loglib

/-- A date, of any year. -/
structure CivilDate where
  year : Int
  month : Nat
  day : Nat
deriving DecidableEq, Repr

/-- `CivilFromDays`: the date that is a number of days from 1970-01-01. -/
def civilFromDays (days : Int) : CivilDate :=
  let z := days + 719468
  let era := Int.tdiv (if 0 ≤ z then z else z - 146096) 146097
  let doe := (z - era * 146097).toNat
  let yoe := (doe - doe / 1460 + doe / 36524 - doe / 146096) / 365
  let doy := doe - (365 * yoe + yoe / 4 - yoe / 100)
  let mp := (5 * doy + 2) / 153
  let month := if mp < 10 then mp + 3 else mp - 9
  { year := yoe + era * 400 + if month ≤ 2 then 1 else 0, month, day := doy - (153 * mp + 2) / 5 + 1 }

/-- The days of an era before one of its years. -/
def eraDaysBefore (yearOfEra : Nat) : Nat :=
  365 * yearOfEra + yearOfEra / 4 - yearOfEra / 100 + yearOfEra / 400

/-- A day of an era is in a century, in four years of it, and in one of these, of which the last may
have a day more. -/
theorem exists_cycles {doe : Nat} (inEra : doe < 146097) :
    ∃ century cycle year day, doe = 36524 * century + 1461 * cycle + 365 * year + day ∧
      century ≤ 3 ∧ cycle ≤ 24 ∧
      year ≤ 3 ∧ day ≤ 365 ∧ (day = 365 → year = 3 ∧ (cycle = 24 → century = 3)) := by
  obtain ⟨century, hcentury⟩ : ∃ century, century = min 3 (doe / 36524) := ⟨_, rfl⟩
  obtain ⟨cycle, hcycle⟩ : ∃ cycle, cycle = (doe - 36524 * century) / 1461 := ⟨_, rfl⟩
  obtain ⟨year, hyear⟩ : ∃ year, year = min 3 ((doe - 36524 * century - 1461 * cycle) / 365) :=
    ⟨_, rfl⟩
  -- The last century, the last four years and the last year are those that may be longer.
  have inCentury : 36524 * century ≤ doe ∧ doe ≤ 36524 * century + 36524 ∧
      (century < 3 → doe < 36524 * century + 36524) := by
    omega
  have inCycle : 1461 * cycle ≤ doe - 36524 * century ∧
      doe - 36524 * century < 1461 * cycle + 1461 := by omega
  exact ⟨century, cycle, year, doe - 36524 * century - 1461 * cycle - 365 * year, by omega⟩

/-- Later years are behind earlier ones. -/
theorem eraDaysBefore_mono : Monotone eraDaysBefore := monotone_nat_of_le_succ fun year => by
  -- A year has some days, whatever leap days it has.
  unfold eraDaysBefore
  omega

/-- The year that is found for a day of an era is the one that the day is in. -/
theorem year_of_day {doe yoe : Nat} (inEra : doe < 146097)
    (found : yoe = (doe - doe / 1460 + doe / 36524 - doe / 146096) / 365) :
    yoe < 400 ∧ eraDaysBefore yoe ≤ doe ∧ doe < eraDaysBefore (yoe + 1) := by
  obtain ⟨century, cycle, year, day, split, hcentury, hcycle, hyear, hday, long⟩ :=
    exists_cycles inEra
  -- The days that the divisions take away are the leap days before, so that 365 divides what is
  -- left of the year.
  have same : yoe = 100 * century + 4 * cycle + year := by
    have leapDays : doe / 1460 = 25 * century + cycle + (24 * century + cycle + 365 * year + day) /
        1460 := by omega
    have centuries : doe / 36524 - doe / 146096 = century := by omega
    omega
  clear found
  have cycles : yoe / 4 = 25 * century + cycle := by omega
  have hundreds : yoe / 100 = century := by omega
  refine ⟨by omega, ?_, ?_⟩
  · rw [eraDaysBefore, cycles, hundreds]
    omega
  · -- The year behind may begin four years, a century or an era.
    rw [eraDaysBefore]
    by_cases lastYear : year = 3
    · have fourth : (yoe + 1) / 4 = 25 * century + cycle + 1 := by omega
      by_cases lastCycle : cycle = 24
      · -- The last year of a century has a leap day only when it ends the era.
        have hundredth : (yoe + 1) / 100 = century + 1 := by omega
        omega
      · have hundredth : (yoe + 1) / 100 = century := by omega
        omega
    · have fourth : (yoe + 1) / 4 = 25 * century + cycle := by omega
      have hundredth : (yoe + 1) / 100 = century := by omega
      omega

/-- Division that rounds down, from the one that rounds to zero. -/
theorem tdiv_rounded {unit : Int} (positive : 0 < unit) (value : Int) :
    Int.tdiv (if 0 ≤ value then value else value - (unit - 1)) unit = value / unit := by
  by_cases nonneg : 0 ≤ value
  · rw [if_pos nonneg, Int.tdiv_eq_ediv_of_nonneg nonneg]
  · -- Below zero, the quotient is that of the positive number, and the remainder is turned round.
    have low := Int.emod_nonneg value positive.ne'
    have high := Int.emod_lt_of_pos value positive
    have split_ := Int.mul_ediv_add_emod value unit
    have turned : value - (unit - 1) = -(unit - 1 - value) := by omega
    rw [if_neg nonneg, turned, Int.neg_tdiv, Int.tdiv_eq_ediv_of_nonneg (by omega),
      neg_eq_iff_eq_neg,
      Int.ediv_eq_iff_of_pos positive]
    constructor <;> nlinarith

section CivilFromDays

variable {days : Int}

/-- Where a day is: in an era, in a year of it that starts in March, and in this year. -/
structure DayPosition (days : Int) where
  era : Int
  yearOfEra : Nat
  dayOfYear : Nat
  year_lt : yearOfEra < 400
  days_eq : days + 719468 = era * 146097 + eraDaysBefore yearOfEra + dayOfYear
  day_lt : eraDaysBefore yearOfEra + dayOfYear < eraDaysBefore (yearOfEra + 1)

/-- The month from March that a day of a year is in. -/
def monthFromMarch (dayOfYear : Nat) : Nat := (5 * dayOfYear + 2) / 153

/-- The date of a position. -/
def DayPosition.date (position : DayPosition days) : CivilDate :=
  let mp := monthFromMarch position.dayOfYear
  let month := if mp < 10 then mp + 3 else mp - 9
  { year := position.yearOfEra + position.era * 400 + if month ≤ 2 then 1 else 0, month,
    day := position.dayOfYear - (153 * mp + 2) / 5 + 1 }

/-- The position that is computed for a day. -/
theorem civilFromDays_eq (days : Int) :
    ∃ position : DayPosition days, civilFromDays days = position.date := by
  obtain ⟨doe, hdoe⟩ : ∃ doe, doe = ((days + 719468) - (days + 719468) / 146097 * 146097).toNat :=
    ⟨_, rfl⟩
  obtain ⟨yoe, hyoe⟩ : ∃ yoe, yoe = (doe - doe / 1460 + doe / 36524 - doe / 146096) / 365 :=
    ⟨_, rfl⟩
  have inEra : doe < 146097 := by omega
  obtain ⟨year_lt, first, last⟩ := year_of_day inEra hyoe
  -- The year is in the era, so no era is counted in the days before it.
  have beforeEra : yoe / 400 = 0 := by omega
  have dayOfYear : doe - (365 * yoe + yoe / 4 - yoe / 100) = doe - eraDaysBefore yoe := by
    rw [eraDaysBefore, beforeEra, Nat.add_zero]
  refine ⟨⟨(days + 719468) / 146097, yoe, doe - eraDaysBefore yoe, year_lt, by omega, by omega⟩, ?_⟩
  have floor : ∀ z : Int, Int.tdiv (if 0 ≤ z then z else z - 146096) 146097 = z / 146097 :=
    @tdiv_rounded 146097 (by decide)
  simp only [civilFromDays, floor, ← hdoe, ← hyoe, dayOfYear]
  rfl

/-- A year has 365 days, or 366 when the next one of the calendar is a leap year. -/
theorem DayPosition.dayOfYear_lt (position : DayPosition days) :
    position.dayOfYear < 366 ∧
      (position.dayOfYear = 365 → (position.yearOfEra + 1) % 4 = 0 ∧
        ((position.yearOfEra + 1) % 100 ≠ 0 ∨ (position.yearOfEra + 1) % 400 = 0)) := by
  have inYear := position.day_lt
  unfold eraDaysBefore at inYear
  omega

/-- The month and the day of a position, as they are found from the day of the year. -/
theorem DayPosition.month_cases (position : DayPosition days) :
    ∃ mp, monthFromMarch position.dayOfYear = mp ∧ mp ≤ 11 ∧
      (153 * mp + 2) / 5 ≤ position.dayOfYear ∧
      position.dayOfYear < (153 * (mp + 1) + 2) / 5 := by
  have inYear := position.dayOfYear_lt.1
  refine ⟨_, rfl, ?_⟩
  -- From March on, five months take 153 days, which the division undoes.
  unfold monthFromMarch
  omega

/-- The days of a date, by the era, the year and the month from March. -/
theorem sysDays_eq {year month day yearOfEra mp : Nat} {era : Int} (small : yearOfEra < 400)
    (marchYear : (if month ≤ 2 then (year : Int) - 1 else year) = yearOfEra + era * 400)
    (fromMarch : (if 2 < month then (month : Int) - 3 else month + 9) = mp) :
    sysDays year month day =
      era * 146097 + eraDaysBefore yearOfEra + ((153 * mp + 2) / 5 : Nat) + day - 1 - 719468 := by
  have beforeEra : yearOfEra / 400 = 0 := by omega
  -- The era and the year of it are found back from the year that starts in March.
  have eras : (yearOfEra + era * 400) / 400 = era := by omega
  have years : (yearOfEra + era * 400) % 400 = yearOfEra := by omega
  simp only [sysDays, eraDaysBefore, marchYear, fromMarch, eras, years, beforeEra]
  omega

/-- The days from the epoch of the date of a position are the days. -/
theorem DayPosition.sysDays_date (position : DayPosition days) (calendar : 0 ≤ position.date.year) :
    sysDays position.date.year.toNat position.date.month position.date.day = days := by
  obtain ⟨mp, found, small, first, last⟩ := position.month_cases
  have days_eq := position.days_eq
  -- January and February belong to the year before.
  have marchYear : (if position.date.month ≤ 2 then (position.date.year.toNat : Int) - 1
    else position.date.year.toNat) =
      position.yearOfEra + position.era * 400 := by
    simp only [DayPosition.date, found] at calendar ⊢
    split at calendar <;> split <;> omega
  have fromMarch : (if 2 < position.date.month then (position.date.month : Int) - 3
      else position.date.month + 9) = mp := by
    simp only [DayPosition.date, found]
    split <;> split <;> omega
  have day : position.date.day = position.dayOfYear - (153 * mp + 2) / 5 + 1 := by
    simp only [DayPosition.date, found]
  rw [sysDays_eq position.year_lt marchYear fromMarch, day]
  omega

/-- A month before February is as long as the months from March say. -/
theorem daysInMonth_fromMarch {mp : Nat} (year : Nat) (small : mp < 11) :
    daysInMonth year (if mp < 10 then mp + 3 else mp - 9) = (153 * (mp + 1) + 2) / 5 -
      (153 * mp + 2) / 5 := by
  interval_cases mp <;> rfl

/-- The date of a position is one of the calendar. -/
theorem DayPosition.isDate_date (position : DayPosition days) (calendar : 0 ≤ position.date.year) :
    isDate position.date.year.toNat position.date.month position.date.day = true := by
  obtain ⟨mp, found, small, first, last⟩ := position.month_cases
  obtain ⟨inYear, leap⟩ := position.dayOfYear_lt
  simp only [DayPosition.date, found] at calendar ⊢
  have month : 1 ≤ (if mp < 10 then mp + 3 else mp - 9) ∧ (if mp < 10 then mp + 3
      else mp - 9) ≤ 12 := by
    split <;> omega
  simp only [isDate, Bool.and_eq_true, decide_eq_true_eq]
  refine ⟨⟨month, by omega⟩, ?_⟩
  by_cases february : mp = 11
  · subst february
    simp only [show ¬11 < 10
      by omega, if_false, show (11 - 9 : Nat) ≤ 2 by omega, if_true] at calendar ⊢
    -- The last day of a long February.
    by_cases extra : position.dayOfYear = 365
    · obtain ⟨fourth, hundredth⟩ := leap extra
      -- The year behind March is divided by four, and by a hundred only with four hundred.
      have isLeap : isLeapYear (position.yearOfEra + position.era * 400 + 1 : Int).toNat =
          true := by
        simp only [isLeapYear, Bool.and_eq_true, Bool.or_eq_true, decide_eq_true_eq]
        omega
      simp only [daysInMonth, isLeap, if_true, List.getD_cons_succ, List.getD_cons_zero]
      omega
    · -- Any other day of February is one of the first 28.
      have least : 28 ≤ daysInMonth (position.yearOfEra + position.era * 400 + 1 :
          Int).toNat 2 := by
        simp only [daysInMonth, List.getD_cons_succ, List.getD_cons_zero]
        split <;> omega
      exact le_trans (by omega) least
  · -- The other months have their own length in every year.
    rw [daysInMonth_fromMarch _ (by omega)]
    omega

end CivilFromDays

/-- The day count of the date that is found for a day is the day, and the date is one of the
calendar. -/
theorem sysDays_civilFromDays {days : Int} (calendar : 0 ≤ (civilFromDays days).year) :
    sysDays (civilFromDays days).year.toNat (civilFromDays days).month
      (civilFromDays days).day = days ∧
      isDate (civilFromDays days).year.toNat (civilFromDays days).month
        (civilFromDays days).day = true := by
  obtain ⟨position, found⟩ := civilFromDays_eq days
  rw [found] at calendar ⊢
  exact ⟨position.sysDays_date calendar, position.isDate_date calendar⟩

/-- The years of the calendar that have four digits are those of the days between two new years. -/
theorem civilFromDays_year_iff (days : Int) :
    (0 ≤ (civilFromDays days).year ∧ (civilFromDays days).year ≤ 9999) ↔
      sysDays 0 1 1 ≤ days ∧ days < sysDays 10000 1 1 := by
  obtain ⟨position, found⟩ := civilFromDays_eq days
  obtain ⟨mp, month, small, first, last⟩ := position.month_cases
  have days_eq := position.days_eq
  have inYear := position.dayOfYear_lt.1
  have zero : sysDays 0 1 1 = -719528 := rfl
  have tenThousand : sysDays 10000 1 1 = 2932897 := rfl
  have lastYear : eraDaysBefore 399 = 145731 := rfl
  have inEra : eraDaysBefore position.yearOfEra + position.dayOfYear < 146097 :=
    lt_of_lt_of_le position.day_lt (eraDaysBefore_mono position.year_lt)
  -- The years before the last one of an era end before its last year starts.
  have early : position.yearOfEra < 399 →
      eraDaysBefore position.yearOfEra + position.dayOfYear < 145731 := fun early =>
    lt_of_lt_of_le position.day_lt (eraDaysBefore_mono (by omega : position.yearOfEra + 1 ≤ 399))
  have late : ¬position.yearOfEra < 399 → position.yearOfEra = 399 := by
    have year_lt := position.year_lt
    omega
  rw [found, zero, tenThousand]
  simp only [DayPosition.date, month]
  by_cases ends : position.yearOfEra < 399
  · -- The months of the other years are in the era of the year that the calendar has for them.
    have before := early ends
    split <;> split <;> omega
  · -- In the last year of an era, January and February are in the first year of the next.
    have same := late ends
    rw [same, lastYear] at days_eq
    rw [same]
    split <;> split <;> omega

end Loglib
