import Loglib.Query.IsoTimestamp

/-! The grammar of the ISO timestamps: what a literal says, how it is written, and that
this is what is read. -/

namespace Loglib.Query

section Readers

variable {width value : Nat} {text rest : Bytes}

/-- What is behind bytes of a kind, when no such byte follows. -/
theorem dropWhile_of_stops {kind : Byte → Bool} (all : text.all kind = true)
    (stops : rest.head?.any kind = false) :
    (text ++ rest).dropWhile kind = rest := by
  -- The text is passed over whole, and the rest starts with another byte.
  rw [List.dropWhile_append_of_pos (List.all_eq_true.mp all)]
  cases rest with
  | nil => rfl
  | cons head tail =>
    have other : kind head = false := by simpa using stops
    rw [List.dropWhile_cons, other]
    rfl

/-- A number is read exactly from its digits at the width. -/
theorem readInt_eq_some_iff (some_ : 0 < width) :
    readInt width text = some (value, rest) ↔
      value < 10 ^ width ∧ text = paddedDecimal width value ++ rest := by
  unfold readInt
  constructor
  · intro read
    split at read
    · rename_i digits
      obtain ⟨rfl, rfl⟩ := by simpa using read
      -- There are as many digits as the width asks for, so the number is written with them again.
      have width_eq : (text.take width).length = width := by
        rw [List.length_take]
        omega
      have notEmpty : text.take width ≠ [] := List.length_pos_iff.mp (by omega)
      have written := paddedDecimal_digitsValue notEmpty digits.2
      have small := digitsValue_lt digits.2
      rw [width_eq] at written small
      exact ⟨small, by rw [written, List.take_append_drop]⟩
    · cases read
  · rintro ⟨small, rfl⟩
    -- Its digits are exactly the width, so the prefix is all of them.
    have length := length_paddedDecimal some_ small
    have digits : (paddedDecimal width value).all isDecimalDigit = true :=
      List.all_eq_true.mpr fun _ member => isDecimalDigit_of_mem_paddedDecimal member
    rw [List.take_left' length, List.drop_left' length,
      if_pos ⟨by rw [List.length_append]; omega, digits⟩,
      digitsValue_paddedDecimal]

/-- Two digits are read as they were written. -/
theorem readInt_two (small : value < 100) :
    readInt 2 (paddedDecimal 2 value ++ rest) = some (value, rest) :=
  (readInt_eq_some_iff (by omega)).mpr ⟨small, rfl⟩

/-- A byte that must be at the cursor is the first one. -/
theorem readMark_eq_some_iff {mark : Byte} :
    readMark mark text = some rest ↔ text = mark :: rest := by
  cases text with
  | nil => simp [readMark]
  | cons head tail =>
    -- Another byte is no mark.
    by_cases same : head = mark
    · simp [readMark, same]
    · simp [readMark, same]

/-- A date of the calendar has a month and a day of two digits. -/
theorem lt_of_isDate {year month day : Nat} (date : isDate year month day = true) :
    month < 100 ∧ day < 100 := by
  simp only [isDate, Bool.and_eq_true, decide_eq_true_eq] at date
  obtain ⟨⟨⟨low, high⟩, first⟩, last⟩ := date
  -- No month is longer than 31 days, in whatever year.
  have longest : daysInMonth year month ≤ 31 := by
    unfold daysInMonth
    interval_cases month <;> simp only [List.getD_cons_succ, List.getD_cons_zero]
      <;> first | omega | (split <;> omega)
  omega

/-- A time of day has an hour, a minute and a second of two digits. -/
theorem lt_of_isIsoClock {hour minute second : Nat} (clock : isIsoClock hour minute second = true) :
    hour < 100 ∧ minute < 100 ∧ second < 100 := by
  simp only [isIsoClock, Bool.and_eq_true, decide_eq_true_eq] at clock
  omega

/-- The date of a text, and what is behind it. -/
theorem readIsoDate_eq_some_iff {year month day : Nat} :
    readIsoDate text = some ((year, month, day), rest) ↔
      (year < 10 ^ 4 ∧ isDate year month day = true) ∧
        text = paddedDecimal 4 year ++ ascii '-' ::
          (paddedDecimal 2 month ++ ascii '-' :: (paddedDecimal 2 day ++ rest)) := by
  simp only [readIsoDate, Option.bind_eq_bind, Option.bind_eq_some_iff, Option.guard_eq_some',
    Option.pure_def,
    Option.some.injEq, Prod.exists, Prod.mk.injEq, readMark_eq_some_iff,
    readInt_eq_some_iff (show 0 < 2 by omega),
    readInt_eq_some_iff (show 0 < 4 by omega)]
  -- A reader of each part is known by what it reads, so the parts are named from left to right.
  constructor
  · rintro ⟨_, _, ⟨small, rfl⟩, _, rfl, _, _, ⟨_, rfl⟩, _, rfl, _, _, ⟨_, rfl⟩, _, date,
      ⟨rfl, rfl, rfl⟩, rfl⟩
    exact ⟨⟨small, date⟩, rfl⟩
  · rintro ⟨⟨small, date⟩, rfl⟩
    -- The calendar keeps the month and the day to two digits each.
    obtain ⟨smallMonth, smallDay⟩ := lt_of_isDate date
    exact ⟨_, _, ⟨small, rfl⟩, _, rfl, _, _, ⟨smallMonth, rfl⟩, _, rfl, _, _, ⟨smallDay, rfl⟩, (),
      date, ⟨rfl, rfl, rfl⟩, rfl⟩

end Readers

/-- The hour and minute of a literal, and its second when it has one. -/
structure IsoClock where
  hour : Nat
  minute : Nat
  second : Option Nat
  ok : isIsoClock hour minute (second.getD 0) = true

/-- How a time of day is written. -/
def IsoClock.text (clock : IsoClock) : Bytes :=
  paddedDecimal 2 clock.hour ++ ascii ':' :: (paddedDecimal 2 clock.minute ++
    clock.second.elim [] fun second => ascii ':' :: paddedDecimal 2 second)

/-- The seconds of the day before a time of day. A leap second is the first one of the
next minute. -/
def IsoClock.seconds (clock : IsoClock) : Nat :=
  clock.hour * 3600 + clock.minute * 60 + clock.second.getD 0

/-- The digits of a fraction of a second, of which there may be none. -/
structure IsoFraction where
  mark : Byte
  digits : Bytes
  mark_ok : mark = ascii '.' ∨ mark = ascii ','
  digits_ok : digits.all isDecimalDigit = true

/-- How a fraction is written. -/
def IsoFraction.text (fraction : IsoFraction) : Bytes := fraction.mark :: fraction.digits

/-- The microseconds of a fraction are its first six digits. -/
def IsoFraction.micros (fraction : IsoFraction) : Nat :=
  digitsValue (fraction.digits.take 6) * 10 ^ (6 - (fraction.digits.take 6).length)

/-- Whether a zone has minutes, and whether a colon is before them. -/
inductive ZoneForm where
  | hours
  | colon
  | compact
deriving DecidableEq

/-- How the minutes of a zone are written. -/
def ZoneForm.text (minutes : Nat) : ZoneForm → Bytes
  | .hours => []
  | .colon => ascii ':' :: paddedDecimal 2 minutes
  | .compact => paddedDecimal 2 minutes

/-- How far a zone is from UTC. -/
structure ZoneOffset where
  west : Bool
  hours : Nat
  minutes : Nat
  form : ZoneForm
  ok : hours ≤ 23 ∧ minutes ≤ 59
  none_ok : form = .hours → minutes = 0

/-- The sign of a zone. -/
def signMark (west : Bool) : Byte := if west then ascii '-' else ascii '+'

/-- The zone of a literal that says one. -/
inductive IsoZone where
  | utc
  | offset (zone : ZoneOffset)

/-- How a zone is written. -/
def IsoZone.text : IsoZone → Bytes
  | .utc => [ascii 'Z']
  | .offset zone =>
    signMark zone.west :: (paddedDecimal 2 zone.hours ++ zone.form.text zone.minutes)

/-- The seconds that a zone is ahead of UTC. -/
def IsoZone.seconds : IsoZone → Int
  | .utc => 0
  | .offset zone => (if zone.west then -1 else 1) * (zone.hours * 3600 + zone.minutes * 60 : Nat)

/-- The time of a literal, behind the mark that separates it from the date. Nothing is later than
the end of the day. -/
structure IsoTime where
  separator : Byte
  clock : IsoClock
  fraction : Option IsoFraction
  zone : Option IsoZone
  separator_ok : separator = ascii 'T' ∨ separator = ascii ' '
  endOfDay : ¬(clock.hour = 24 ∧ fraction.elim 0 IsoFraction.micros ≠ 0)

/-- How a time is written. -/
def IsoTime.text (time : IsoTime) : Bytes :=
  time.separator :: (time.clock.text ++
    (time.fraction.elim [] IsoFraction.text ++ time.zone.elim [] IsoZone.text))

/-- The microseconds of a time, of UTC, from the midnight of its date. -/
def IsoTime.micros (time : IsoTime) : Int :=
  (time.clock.seconds - time.zone.elim 0 IsoZone.seconds) * microsPerSecond +
    time.fraction.elim 0 IsoFraction.micros

/-- A literal of the language: a date, and a time when it has one. -/
structure IsoLiteral where
  year : Nat
  month : Nat
  day : Nat
  time : Option IsoTime
  year_ok : year < 10 ^ 4
  date_ok : isDate year month day = true

/-- How a literal is written. -/
def IsoLiteral.text (literal : IsoLiteral) : Bytes :=
  paddedDecimal 4 literal.year ++ ascii '-' :: (paddedDecimal 2 literal.month ++ ascii '-' ::
    (paddedDecimal 2 literal.day ++ literal.time.elim [] IsoTime.text))

/-- The instant that a literal denotes, in microseconds from the epoch. -/
def IsoLiteral.instant (literal : IsoLiteral) : Int :=
  sysDays literal.year literal.month literal.day * 86400 * microsPerSecond +
    literal.time.elim 0 IsoTime.micros

section Clock

variable {text rest : Bytes}

/-- The seconds of a text, when a colon starts them. -/
theorem readSeconds_eq_some_iff {found : Nat} :
    readSeconds text = some (found, rest) ↔
      (found < 10 ^ 2 ∧ text = ascii ':' :: (paddedDecimal 2 found ++ rest)) ∨
        (found = 0 ∧ text = rest ∧ rest.head? ≠ some (ascii ':')) := by
  unfold readSeconds
  -- Only a colon starts seconds.
  by_cases colon : text.head? = some (ascii ':')
  · obtain ⟨tail, rfl⟩ := List.head?_eq_some_iff.mp colon
    simp only [List.head?_cons, if_true, List.drop_succ_cons, List.drop_zero,
      readInt_eq_some_iff (show 0 < 2 by omega),
      List.cons.injEq, true_and]
    refine ⟨.inl, ?_⟩
    rintro (read | ⟨-, rfl, noColon⟩)
    · exact read
    · exact absurd rfl noColon
  · rw [if_neg colon]
    constructor
    · intro read
      obtain ⟨rfl, rfl⟩ := by simpa using read
      exact .inr ⟨rfl, rfl, colon⟩
    · rintro (⟨-, rfl⟩ | ⟨rfl, rfl, -⟩)
      · exact absurd rfl colon
      · rfl

/-- A time of day is what is written for one, when no seconds follow it. -/
theorem readIsoClock_eq_some_iff {hour minute second : Nat} :
    readIsoClock text = some ((hour, minute, second), rest) ↔
      ∃ clock : IsoClock, clock.hour = hour ∧ clock.minute = minute ∧ clock.second.getD 0 = second ∧
        text = clock.text ++ rest ∧ (clock.second = none → rest.head? ≠ some (ascii ':')) := by
  simp only [readIsoClock, Option.bind_eq_bind, Option.bind_eq_some_iff, Option.guard_eq_some',
    Option.pure_def,
    Option.some.injEq, Prod.exists, Prod.mk.injEq, readMark_eq_some_iff,
    readInt_eq_some_iff (show 0 < 2 by omega),
    readSeconds_eq_some_iff]
  constructor
  · rintro ⟨_, _, ⟨_, rfl⟩, _, rfl, _, _, ⟨_, rfl⟩, _, _, ⟨_, rfl⟩ | ⟨rfl, rfl, noColon⟩, _, ok,
      ⟨rfl, rfl, rfl⟩, rfl⟩
    · -- With seconds, nothing is asked of what follows.
      exact ⟨⟨_, _, some _, ok⟩, rfl, rfl, rfl, by simp [IsoClock.text], by simp⟩
    · exact ⟨⟨_, _, none, ok⟩, rfl, rfl, rfl, by simp [IsoClock.text], fun _ => noColon⟩
  · rintro ⟨⟨hour, minute, second, ok⟩, rfl, rfl, rfl, rfl, stops⟩
    obtain ⟨smallHour, smallMinute, smallSecond⟩ := lt_of_isIsoClock ok
    refine ⟨_, _, ⟨smallHour, List.append_assoc ..⟩, _, rfl, _, _,
      ⟨smallMinute, List.append_assoc ..⟩, _, _, ?_, (), ok,
      ⟨rfl, rfl, rfl⟩, rfl⟩
    -- Without seconds, no colon may follow, for it would start some.
    cases second with
    | none => exact .inr ⟨rfl, rfl, stops rfl⟩
    | some second => exact .inl ⟨smallSecond, rfl⟩

end Clock

section Fraction

variable {digits rest : Bytes}

/-- The loop takes digits until there are seven of them. -/
theorem scanFraction_eq (fractional : Nat) {scanned : Nat} (within_ : scanned ≤ 7)
    (all : digits.all isDecimalDigit = true) (stops : rest.head?.any isDecimalDigit = false) :
    scanFraction fractional (10 ^ scanned) (digits ++ rest) =
      ((digits.take (7 - scanned)).foldl (fun value byte =>
        value * 10 + decimalDigitValue byte) fractional,
        10 ^ (scanned + (digits.take (7 - scanned)).length),
          digits.drop (7 - scanned) ++ rest) := by
  induction digits generalizing fractional scanned with
  | nil =>
    -- The digits are over, so the loop stops at what follows them.
    cases rest with
    | nil => simp [scanFraction]
    | cons head tail =>
      have noDigit : isDecimalDigit head = false := by simpa using stops
      simp [scanFraction, noDigit]
  | cons digit digits ih =>
    rw [List.all_cons, Bool.and_eq_true] at all
    by_cases full : scanned = 7
    · -- The power has reached the cap.
      subst full
      simp [scanFraction, microsDenomCap]
    · -- There is room for one more digit, which the loop takes first.
      have below : 10 ^ scanned < microsDenomCap :=
        Nat.pow_lt_pow_right (by omega) (show scanned < 7 by omega)
      have one : 7 - scanned = 7 - (scanned + 1) + 1 := by omega
      rw [List.cons_append, scanFraction, if_pos ⟨all.1, below⟩, ← pow_succ,
        ih _ (by omega) all.2, one]
      simp [Nat.add_assoc, Nat.add_comm 1]

/-- Seven digits, or fewer, are scaled to the first six. -/
theorem scaled_fraction (all : digits.all isDecimalDigit = true) :
    digitsValue (digits.take 7) * 1000000 / 10 ^ (digits.take 7).length =
      digitsValue (digits.take 6) * 10 ^ (6 - (digits.take 6).length) := by
  by_cases short : digits.length ≤ 6
  · -- Six digits or fewer are all taken, and the power is divided out again.
    have scale : 1000000 = 10 ^ (6 - digits.length) * 10 ^ digits.length := by
      rw [← pow_add, Nat.sub_add_cancel short]
      rfl
    rw [List.take_of_length_le (by omega), List.take_of_length_le short, scale, ← Nat.mul_assoc,
      Nat.mul_div_cancel _ (by positivity)]
  · -- The seventh digit is less than a microsecond.
    obtain ⟨seventh, found⟩ : ∃ seventh, digits[6]? = some seventh :=
      ⟨_, List.getElem?_eq_getElem (by omega)⟩
    have digit : decimalDigitValue seventh < 10 :=
      decimalDigitValue_lt (List.all_eq_true.mp all _ (List.mem_of_getElem? found))
    have seven : digits.take 7 = digits.take 6 ++ [seventh] := by rw [List.take_add_one, found]; rfl
    have six : (digits.take 6).length = 6 := by
      rw [List.length_take]
      omega
    rw [seven, digitsValue_append_digit, List.length_append, six, List.length_singleton]
    omega

/-- A fraction is read as it is written, unless a digit follows. -/
theorem readFraction_text (fraction : IsoFraction) (stops : rest.head?.any isDecimalDigit = false) :
    readFraction (fraction.text ++ rest) = (fraction.micros, rest) := by
  have scanned := scanFraction_eq 0 (Nat.zero_le 7) fraction.digits_ok stops
  have digits : (fraction.digits.drop 7).all isDecimalDigit = true :=
    List.all_eq_true.mpr fun byte member =>
      List.all_eq_true.mp fraction.digits_ok byte (List.mem_of_mem_drop member)
  -- Digits behind the seventh are passed over.
  have skipped := dropWhile_of_stops digits stops
  have marked : (fraction.text ++ rest).head? = some (ascii '.') ∨
      (fraction.text ++ rest).head? = some (ascii ',') := by
    simpa [IsoFraction.text] using fraction.mark_ok
  rw [readFraction, if_pos marked]
  simp only [IsoFraction.text, List.cons_append, List.drop_succ_cons, List.drop_zero]
  rw [show (1 : Nat) = 10 ^ 0 from rfl, scanned]
  simp only [Nat.sub_zero, Nat.zero_add, skipped]
  exact congrArg (·, rest) (scaled_fraction fraction.digits_ok)

/-- Every text starts with a fraction that no digit follows, or with no mark of one. -/
theorem exists_fraction (text : Bytes) :
    ∃ (fraction : Option IsoFraction) (rest : Bytes), text = fraction.elim
      [] IsoFraction.text ++ rest ∧
      readFraction text = (fraction.elim 0 IsoFraction.micros, rest) := by
  by_cases marked : text.head? = some (ascii '.') ∨ text.head? = some (ascii ',')
  · obtain ⟨mark, tail, rfl⟩ : ∃ mark tail, text = mark :: tail := by
      cases text with
      | nil => simp at marked
      | cons mark tail => exact ⟨mark, tail, rfl⟩
    let fraction : IsoFraction :=
      ⟨mark, tail.takeWhile isDecimalDigit, by simpa using marked, List.all_takeWhile⟩
    -- The fraction is the mark with all the digits behind it.
    have split : mark :: tail = fraction.text ++ tail.dropWhile isDecimalDigit := by
      simp [fraction, IsoFraction.text]
    have stops : (tail.dropWhile isDecimalDigit).head?.any isDecimalDigit = false := by
      have noDigit := List.head?_dropWhile_not isDecimalDigit tail
      cases found : (tail.dropWhile isDecimalDigit).head? with
      | none => rfl
      | some head =>
        rw [found] at noDigit
        exact noDigit
    refine ⟨some fraction, tail.dropWhile isDecimalDigit, split, ?_⟩
    rw [split]
    exact readFraction_text fraction stops
  · exact ⟨none, text, rfl, by rw [readFraction, if_neg marked]; rfl⟩

end Fraction

section Zone

variable {text rest : Bytes}

/-- The first of two digits. -/
theorem head_paddedDecimal {value : Nat} (small : value < 100) :
    ∃ head, (paddedDecimal 2 value ++ rest).head? = some head ∧ isDecimalDigit head = true := by
  have length := length_paddedDecimal (show 0 < 2 by omega) (show value < 10 ^ 2 from small)
  cases written : paddedDecimal 2 value with
  | nil => simp [written] at length
  | cons head tail =>
    exact ⟨head, rfl, isDecimalDigit_of_mem_paddedDecimal
      (by rw [written]; exact List.mem_cons_self)⟩

/-- Two digits do not start with a mark. -/
theorem head_ne_of_small {value : Nat} {mark : Byte} (small : value < 100)
    (noDigit : isDecimalDigit mark = false) :
    (paddedDecimal 2 value ++ rest).head? ≠ some mark := by
  obtain ⟨head, found, digit⟩ := @head_paddedDecimal rest value small
  intro same
  obtain rfl : head = mark := Option.some.inj (found.symm.trans same)
  rw [digit] at noDigit
  cases noDigit

/-- The minutes that end a text are in one of the three forms. -/
theorem readZoneMinutes_eq_some_iff {minutes : Nat} (small : minutes < 100) :
    readZoneMinutes text = some (minutes, []) ↔
      ∃ form : ZoneForm, (form = .hours → minutes = 0) ∧ text = form.text minutes := by
  have startsWithDigit := @head_paddedDecimal [] minutes small
  rw [List.append_nil] at startsWithDigit
  obtain ⟨head, found, digit⟩ := startsWithDigit
  have noColon : (paddedDecimal 2 minutes).head? ≠ some (ascii ':') := by
    simpa using @head_ne_of_small [] minutes (ascii ':') small rfl
  have length := length_paddedDecimal (show 0 < 2 by omega) (show minutes < 10 ^ 2 from small)
  constructor
  · -- What is read tells the form: a colon, digits at once, or nothing at all.
    intro read
    unfold readZoneMinutes at read
    split at read
    · rename_i colon
      obtain ⟨tail, rfl⟩ := List.head?_eq_some_iff.mp colon
      obtain ⟨-, written⟩ := (readInt_eq_some_iff (by omega)).mp read
      rw [List.drop_succ_cons, List.drop_zero, List.append_nil] at written
      exact ⟨.colon, nofun, by rw [written]; rfl⟩
    · split at read
      · obtain ⟨-, written⟩ := (readInt_eq_some_iff (by omega)).mp read
        rw [List.append_nil] at written
        exact ⟨.compact, nofun, written⟩
      · obtain ⟨rfl, rfl⟩ := by simpa using read
        exact ⟨.hours, fun _ => rfl, rfl⟩
  · rintro ⟨form, none_ok, rfl⟩
    -- Each form is read by its own branch.
    cases form with
    | hours =>
      rw [none_ok rfl]
      rfl
    | colon =>
      have read := @readInt_two minutes [] small
      rw [List.append_nil] at read
      simpa [readZoneMinutes, ZoneForm.text] using read
    | compact =>
      have read := @readInt_two minutes [] small
      rw [List.append_nil] at read
      rw [ZoneForm.text, readZoneMinutes, if_neg noColon,
        if_pos ⟨by omega, by rw [found]; exact digit⟩, read]

/-- The sign that is read for a zone. -/
theorem sign_eq (west : Bool) (rest : Bytes) :
    (if (signMark west :: rest).head? = some (ascii '-') then (-1 : Int) else 1) = if west then -1
      else 1 := by
  cases west <;> rfl

/-- The zone that ends a text. -/
theorem readZone_eq_some_iff {seconds : Int} :
    readZone text = some (seconds, []) ↔
      ∃ zone : Option IsoZone, text = zone.elim
        [] IsoZone.text ∧ seconds = zone.elim 0 IsoZone.seconds := by
  constructor
  · intro read
    unfold readZone at read
    split at read
    · rename_i utc
      obtain ⟨tail, rfl⟩ := List.head?_eq_some_iff.mp utc
      obtain ⟨rfl, rfl⟩ := by simpa using read
      exact ⟨some .utc, rfl, rfl⟩
    · split at read
      · rename_i sign
        obtain ⟨west, tail, rfl⟩ : ∃ west tail, text = signMark west :: tail := by
          rcases sign with plus | minus
          · obtain ⟨tail, rfl⟩ := List.head?_eq_some_iff.mp plus
            exact ⟨false, tail, rfl⟩
          · obtain ⟨tail, rfl⟩ := List.head?_eq_some_iff.mp minus
            exact ⟨true, tail, rfl⟩
        simp only [Option.bind_eq_bind, Option.bind_eq_some_iff, Option.guard_eq_some',
          Option.pure_def,
          Option.some.injEq, Prod.exists, Prod.mk.injEq, readInt_eq_some_iff (show 0 < 2 by omega),
          List.drop_succ_cons,
          List.drop_zero, sign_eq] at read
        -- Behind the sign come two digits of hours, and minutes that end the text.
        obtain ⟨hours, _, ⟨-, rfl⟩, minutes, _, minutesRead, _, ok, rfl, rfl⟩ := read
        obtain ⟨form, none_ok, rfl⟩ := (readZoneMinutes_eq_some_iff (by omega)).mp minutesRead
        exact ⟨some (.offset ⟨west, hours, minutes, form, ok, none_ok⟩), rfl, rfl⟩
      · obtain ⟨rfl, rfl⟩ := by simpa using read
        exact ⟨none, rfl, rfl⟩
  · rintro ⟨zone, rfl, rfl⟩
    -- No zone is read where the text ends.
    cases zone with
    | none => rfl
    | some zone =>
      cases zone with
      | utc => rfl
      | offset zone =>
        obtain ⟨west, hours, minutes, form, ok, none_ok⟩ := zone
        have minutesRead := (readZoneMinutes_eq_some_iff (show minutes < 100 by omega)).mpr ⟨form,
          none_ok, rfl⟩
        -- The sign is not the letter of UTC, so the branch of the offsets is taken.
        have notUtc : (signMark west :: (paddedDecimal 2 hours ++ form.text minutes)).head? ≠
            some (ascii 'Z') := by
          cases west <;> simp [signMark, ascii]
        have signed : (signMark west :: (paddedDecimal 2 hours ++ form.text minutes)).head? =
          some (ascii '+') ∨
            (signMark west :: (paddedDecimal 2 hours ++ form.text minutes)).head? =
              some (ascii '-') := by
          cases west <;> simp [signMark]
        have checked : guard (hours ≤ 23 ∧ minutes ≤ 59) = some () := by
          rw [guard, if_pos ok]
          rfl
        simp only [Option.elim_some, IsoZone.text, readZone, if_neg notUtc, if_pos signed,
          List.drop_succ_cons,
          List.drop_zero, readInt_two (show hours < 100 by omega), minutesRead, checked,
          Option.bind_eq_bind,
          Option.bind_some]
        exact congrArg (fun sign : Int =>
          some (sign * (hours * 3600 + minutes * 60 : Nat), ([] : Bytes))) (sign_eq west _)

/-- A zone that ends a text starts with a mark of its own. -/
theorem head_zone (zone : Option IsoZone) :
    (zone.elim [] IsoZone.text).head? = none ∨ (zone.elim [] IsoZone.text).head? = some
      (ascii 'Z') ∨
      (zone.elim [] IsoZone.text).head? = some
        (ascii '+') ∨ (zone.elim [] IsoZone.text).head? = some (ascii '-') := by
  -- No zone, a letter, or a sign.
  cases zone with
  | none => exact .inl rfl
  | some zone =>
    cases zone with
    | utc => exact .inr (.inl rfl)
    | offset zone =>
      obtain ⟨west, hours, minutes, form, ok, none_ok⟩ := zone
      cases west
      · exact .inr (.inr (.inl rfl))
      · exact .inr (.inr (.inr rfl))

/-- No other mark starts a zone, and no digit does. -/
theorem head_zone_ne (zone : Option IsoZone) :
    (zone.elim [] IsoZone.text).head?.any isDecimalDigit = false ∧
      (zone.elim [] IsoZone.text).head? ≠ some
        (ascii '.') ∧ (zone.elim [] IsoZone.text).head? ≠ some (ascii ',') ∧
      (zone.elim [] IsoZone.text).head? ≠ some (ascii ':') := by
  -- There are three bytes a zone may start with.
  rcases head_zone zone with head | head | head | head <;> rw [head] <;> decide

/-- The fraction of a time is read from what is written behind the clock. -/
theorem readFraction_time (fraction : Option IsoFraction) (zone : Option IsoZone) :
    readFraction (fraction.elim [] IsoFraction.text ++ zone.elim [] IsoZone.text) =
      (fraction.elim 0 IsoFraction.micros, zone.elim [] IsoZone.text) := by
  obtain ⟨noDigit, noPoint, noComma, -⟩ := head_zone_ne zone
  cases fraction with
  -- Without a fraction, the zone starts with no mark of one.
  | none =>
    rw [Option.elim_none, List.nil_append, readFraction,
      if_neg (not_or.mpr ⟨noPoint, noComma⟩)]; rfl
  | some fraction => exact readFraction_text fraction noDigit

/-- What is behind the clock of a time does not go on with seconds. -/
theorem head_behindClock (fraction : Option IsoFraction) (zone : Option IsoZone) :
    (fraction.elim [] IsoFraction.text ++ zone.elim [] IsoZone.text).head? ≠ some (ascii ':') := by
  cases fraction with
  | none => exact (head_zone_ne zone).2.2.2
  | some fraction =>
    obtain ⟨mark, digits, mark_ok, digits_ok⟩ := fraction
    -- A point or a comma is no colon.
    rcases mark_ok with rfl | rfl <;> simp [IsoFraction.text, ascii]

end Zone

section Literals

variable {text rest : Bytes}

/-- The time that ends a text, behind its separator. -/
theorem readIsoTime_eq_some_iff {separator : Byte} {micros : Int}
    (separator_ok : separator = ascii 'T' ∨ separator = ascii ' ') :
    readIsoTime text = some (micros, []) ↔ ∃ time : IsoTime, time.text = separator :: text ∧
      time.micros = micros := by
  constructor
  · intro read
    simp only [readIsoTime, Option.bind_eq_bind, Option.bind_eq_some_iff, Option.guard_eq_some',
      Option.pure_def,
      Option.some.injEq, Prod.exists, Prod.mk.injEq] at read
    obtain ⟨hour, minute, second, behindClock, clockRead, _, endOfDay, offset, _, zoneRead, rfl,
      rfl⟩ := read
    -- The clock comes first, then the fraction, which is always found, and the zone ends the text.
    obtain ⟨clock, rfl, rfl, rfl, rfl, -⟩ := readIsoClock_eq_some_iff.mp clockRead
    obtain ⟨fraction, behindFraction, rfl, fractionRead⟩ := exists_fraction behindClock
    rw [fractionRead] at endOfDay zoneRead
    obtain ⟨zone, rfl, rfl⟩ := readZone_eq_some_iff.mp zoneRead
    refine ⟨⟨separator, clock, fraction, zone, separator_ok, endOfDay⟩, rfl, ?_⟩
    rw [fractionRead]
    rfl
  · rintro ⟨⟨_, clock, fraction, zone, _, endOfDay⟩, written, rfl⟩
    obtain ⟨rfl, rfl⟩ := List.cons.inj written
    -- What was written is read part by part, for each part ends where the next one starts.
    have clockRead := readIsoClock_eq_some_iff.mpr ⟨clock, rfl, rfl, rfl, rfl, fun _ =>
      head_behindClock fraction zone⟩
    have zoneRead := readZone_eq_some_iff.mpr ⟨zone, rfl, rfl⟩
    have checked : guard (¬(clock.hour = 24 ∧ fraction.elim 0 IsoFraction.micros ≠ 0)) =
        some () := by
      rw [guard, if_pos endOfDay]
      rfl
    simp only [readIsoTime, clockRead, Option.bind_eq_bind, Option.bind_some, readFraction_time,
      checked, zoneRead]
    rfl

/-- What follows the date of a literal is a time, or nothing. -/
theorem readOptionalTime_eq_some_iff {micros : Int} :
    readOptionalTime text = some (micros, []) ↔
      ∃ time : Option IsoTime, time.elim
        [] IsoTime.text = text ∧ time.elim 0 IsoTime.micros = micros := by
  unfold readOptionalTime
  constructor
  · intro read
    split at read
    · rename_i separated
      -- A separator starts a time.
      obtain ⟨separator, tail, rfl, separator_ok⟩ :
          ∃ separator tail, text = separator :: tail ∧
            (separator = ascii 'T' ∨ separator = ascii ' ') := by
        cases text with
        | nil => simp at separated
        | cons separator tail => exact ⟨separator, tail, rfl, by simpa using separated⟩
      obtain ⟨time, written, denoted⟩ := (readIsoTime_eq_some_iff separator_ok).mp read
      exact ⟨some time, written, denoted⟩
    · obtain ⟨rfl, rfl⟩ := by simpa using read
      exact ⟨none, rfl, rfl⟩
  · rintro ⟨time, rfl, rfl⟩
    cases time with
    | none => rfl
    | some time =>
      rw [if_pos (by simpa [IsoTime.text] using time.separator_ok)]
      exact (readIsoTime_eq_some_iff time.separator_ok).mpr ⟨time, rfl, rfl⟩

/-- The two algorithms count the same days, for the dates of the calendar. -/
theorem daysSinceEpoch_eq {year month day : Nat} (date : isDate year month day = true) :
    daysSinceEpoch year month day = sysDays year month day := by
  simp only [isDate, Bool.and_eq_true, decide_eq_true_eq] at date
  have floor : ∀ y : Int, Int.tdiv (if 0 ≤ y then y else y - 399) 400 = y / 400 :=
    @tdiv_rounded 400 (by decide)
  -- Both algorithms count the years from March, so the same quantities are named in both.
  obtain ⟨y, march⟩ : ∃ y : Int, (if month ≤ 2 then (year : Int) - 1 else year) = y := ⟨_, rfl⟩
  obtain ⟨yoe, yearOfEra⟩ : ∃ yoe, (y - y / 400 * 400).toNat = yoe := ⟨_, rfl⟩
  obtain ⟨mp, monthFromMarch⟩ : ∃ mp, (if 2 < month then month - 3 else month + 9) = mp := ⟨_, rfl⟩
  have small : yoe < 400 := by omega
  have fromMarch : (if 2 < month then (month : Int) - 3 else month + 9) = mp := by
    rw [← monthFromMarch]
    split <;> omega
  have counted := @sysDays_eq year month day yoe mp (y / 400) small (by omega) fromMarch
  -- The year of the era is below 400, so no whole era is before it.
  have beforeEra : yoe / 400 = 0 := by omega
  simp only [daysSinceEpoch, floor, march, yearOfEra, monthFromMarch]
  rw [counted, eraDaysBefore, beforeEra]
  omega

/-- The days of the dates with a year of four digits. -/
theorem IsoLiteral.sysDays_bounds (literal : IsoLiteral) :
    -720000 < sysDays literal.year literal.month literal.day ∧
      sysDays literal.year literal.month literal.day < 2933000 := by
  have year_ok := literal.year_ok
  have date_ok := literal.date_ok
  simp only [isDate, Bool.and_eq_true, decide_eq_true_eq] at date_ok
  have smallDay := (lt_of_isDate literal.date_ok).2
  have small : literal.year ≤ 9999 := by omega
  simp only [sysDays]
  -- The year has four digits, whichever half of the year it is.
  split <;> split <;> omega

/-- A fraction is less than a second. -/
theorem IsoFraction.micros_lt (fraction : IsoFraction) : fraction.micros < 1000000 := by
  have digits : (fraction.digits.take 6).all isDecimalDigit = true :=
    List.all_eq_true.mpr fun _ member =>
      List.all_eq_true.mp fraction.digits_ok _ (List.mem_of_mem_take member)
  have length : (fraction.digits.take 6).length ≤ 6 := by
    rw [List.length_take]
    omega
  -- Six digits are below a million, and fewer are scaled up to it.
  calc fraction.micros
      < 10 ^ (fraction.digits.take 6).length * 10 ^ (6 - (fraction.digits.take 6).length) :=
        Nat.mul_lt_mul_of_pos_right (digitsValue_lt digits) (by positivity)
    _ = 1000000 := by rw [← pow_add, Nat.add_sub_cancel' length]; rfl

/-- The microseconds of a time are less than three days from the midnight. -/
theorem IsoTime.micros_bounds (time : IsoTime) :
    -259200000000 < time.micros ∧ time.micros < 259200000000 := by
  obtain ⟨separator, ⟨hour, minute, second, ok⟩, fraction, zone, separator_ok, endOfDay⟩ := time
  simp only [isIsoClock, Bool.and_eq_true, decide_eq_true_eq] at ok
  have fractionMicros : fraction.elim 0 IsoFraction.micros < 1000000 := by
    cases fraction with
    | none => decide
    | some fraction => exact fraction.micros_lt
  -- A zone is less than a day away.
  have zoneSeconds : -86400 < zone.elim 0 IsoZone.seconds ∧
      zone.elim 0 IsoZone.seconds < 86400 := by
    rcases zone with _ | ⟨_ | zone⟩
    · decide
    · decide
    · have zone_ok := zone.ok
      simp only [Option.elim_some, IsoZone.seconds]
      split <;> omega
  simp only [IsoTime.micros, IsoClock.seconds, microsPerSecond]
  omega

/-- An instant of a literal is one of the counts of 64 bits. -/
theorem IsoLiteral.toInt_instant (literal : IsoLiteral) :
    (Int64.ofInt literal.instant).toInt = literal.instant := by
  have dayBounds := literal.sysDays_bounds
  have timeBounds : -259200000000 < literal.time.elim 0 IsoTime.micros ∧
      literal.time.elim 0 IsoTime.micros < 259200000000 := by
    cases literal.time with
    | none => decide
    | some time => exact time.micros_bounds
  -- Days and time together stay far inside the 64 bits.
  apply Int64.toInt_ofInt_of_le
  · simp only [IsoLiteral.instant, microsPerSecond]
    omega
  · simp only [IsoLiteral.instant, microsPerSecond]
    omega

/-- What is read is exactly what a literal denotes, and what is not the text of a literal
is not read. -/
theorem parseIsoTimestamp_eq_some (text : Bytes) (value : Int64) :
    parseIsoTimestamp text = some value ↔ ∃ literal : IsoLiteral, literal.text = text ∧
      literal.instant = value.toInt := by
  constructor
  · intro read
    simp only [parseIsoTimestamp, Option.bind_eq_bind, Option.bind_eq_some_iff,
      Option.guard_eq_some', Option.pure_def,
      Option.some.injEq, Prod.exists, readIsoDate_eq_some_iff] at read
    obtain ⟨year, month, day, _, ⟨⟨year_ok, date_ok⟩, rfl⟩, _, _, timeRead, _, rfl, rfl⟩ := read
    -- What follows the date is all of the text, so the two parts make a literal.
    obtain ⟨time, rfl, rfl⟩ := readOptionalTime_eq_some_iff.mp timeRead
    let literal : IsoLiteral := ⟨year, month, day, time, year_ok, date_ok⟩
    refine ⟨literal, rfl, ?_⟩
    rw [daysSinceEpoch_eq date_ok]
    exact literal.toInt_instant.symm
  · rintro ⟨literal, rfl, denoted⟩
    -- The text of a literal is read as its date and its time.
    have dateRead : readIsoDate literal.text =
        some ((literal.year, literal.month, literal.day), literal.time.elim [] IsoTime.text) :=
      readIsoDate_eq_some_iff.mpr ⟨⟨literal.year_ok, literal.date_ok⟩, rfl⟩
    have timeRead := readOptionalTime_eq_some_iff.mpr ⟨literal.time, rfl, rfl⟩
    simp only [parseIsoTimestamp, dateRead, timeRead, Option.bind_eq_bind, Option.bind_some,
      daysSinceEpoch_eq literal.date_ok]
    rw [← Int64.ofInt_toInt value, ← denoted]
    rfl

end Literals

end Loglib.Query
