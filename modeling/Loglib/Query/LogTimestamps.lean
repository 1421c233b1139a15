import Loglib.Query.IsoLiterals
import Loglib.Table.TimestampFormats

/-! The ISO timestamps of the logs: their grammar, and that the query language reads the same
instants. -/

namespace Loglib.Query

section Fields

variable {text rest : Bytes} {offset count value : Nat}

/-- A byte has the value of a digit if it is one. -/
theorem digitValue_eq (byte : Byte) :
    digitValue byte = if isDecimalDigit byte = true then some (decimalDigitValue byte)
      else none := by
  unfold digitValue isDecimalDigit decimalDigitValue
  simp only [Bool.and_eq_true, decide_eq_true_eq]

/-- Digits are read on from what those in front of them stand for. -/
theorem foldlM_digitValue (digits : Bytes) (start : Nat) :
    digits.foldlM (fun value byte => (digitValue byte).map (value * 10 + ·)) start =
      if digits.all isDecimalDigit = true then
        some (digits.foldl (fun value byte => value * 10 + decimalDigitValue byte) start)
      else none := by
  induction digits generalizing start with
  | nil => rfl
  | cons byte rest ih =>
    rw [List.foldlM_cons, digitValue_eq, List.all_cons]
    -- The first byte that is no digit ends the whole.
    by_cases digit : isDecimalDigit byte = true
    · simp [digit, ih]
    · simp [digit]

/-- A field is the number that its digits stand for. -/
theorem parseFixedDigits_eq (text : Bytes) (offset count : Nat) :
    parseFixedDigits text offset count =
      if ((text.drop offset).take count).all isDecimalDigit = true then some
        (digitsValue ((text.drop offset).take count))
      else none :=
  foldlM_digitValue _ 0

/-- A field of the text is written with its digits. -/
theorem drop_of_parseFixedDigits (some_ : 0 < count) (inside : offset + count ≤ text.length)
    (parsed : parseFixedDigits text offset count = some value) :
    value < 10 ^ count ∧ text.drop offset = paddedDecimal count value ++ text.drop
      (offset + count) := by
  -- The digits are all there, since the field lies inside the text.
  have read : readInt count (text.drop offset) = some (value, (text.drop offset).drop count) := by
    rw [parseFixedDigits_eq] at parsed
    split at parsed
    · rename_i digits
      rw [readInt, if_pos ⟨by rw [List.length_drop]; omega, digits⟩, Option.some.inj parsed]
    · cases parsed
  obtain ⟨small, written⟩ := (readInt_eq_some_iff some_).mp read
  rw [List.drop_drop] at written
  exact ⟨small, written⟩

/-- Written digits are read as their number. -/
theorem parseFixedDigits_of_drop (some_ : 0 < count) (small : value < 10 ^ count)
    (written : text.drop offset = paddedDecimal count value ++ rest) :
    parseFixedDigits text offset count = some value := by
  -- Both readers take the digits from the same place.
  have read := (readInt_eq_some_iff some_).mpr ⟨small, written⟩
  rw [parseFixedDigits_eq]
  unfold readInt at read
  split at read
  · rename_i digits
    rw [if_pos digits.2, (Prod.mk.inj (Option.some.inj read)).1]
  · cases read

/-- A mark of the text is in front of what is behind it. -/
theorem drop_of_getElem? {mark : Byte} (held : text[offset]? = some mark) :
    text.drop offset = mark :: text.drop (offset + 1) := by
  obtain ⟨inside, same⟩ := List.getElem?_eq_some_iff.mp held
  rw [List.drop_eq_getElem_cons inside, same]

/-- A mark in front of a part of the text is at its place. -/
theorem getElem?_of_drop {mark : Byte} (written : text.drop offset = mark :: rest) :
    text[offset]? = some mark := by
  have head : (text.drop offset)[0]? = some mark := by rw [written, List.getElem?_cons_zero]
  rwa [List.getElem?_drop, Nat.add_zero] at head

/-- What is behind a part of the text. -/
theorem drop_behind {front : Bytes} (written : text.drop offset = front ++ rest)
    (length : front.length = count) :
    text.drop (offset + count) = rest := by
  rw [← List.drop_drop, written, List.drop_left' length]

/-- What is behind a mark of the text. -/
theorem drop_mark {mark : Byte} (written : text.drop offset = mark :: rest) :
    text.drop (offset + 1) = rest := by
  rw [← List.drop_drop, written, List.drop_one, List.tail_cons]

end Fields

/-- A fraction of the logs: one digit at least, and six at most. -/
structure LogFraction extends IsoFraction where
  some_ok : digits ≠ []
  few_ok : digits.length ≤ 6

/-- A timestamp of the logs: a date of the calendar, a time of day and perhaps a fraction
and a `Z`. -/
structure LogTimestamp where
  year : Nat
  month : Nat
  day : Nat
  hour : Nat
  minute : Nat
  second : Nat
  fraction : Option LogFraction
  zulu : Bool
  year_ok : year < 10 ^ 4
  date_ok : isDate year month day = true
  time_ok : isTimeOfDay hour minute second = true

namespace LogTimestamp

variable (stamp : LogTimestamp)

/-- How the part behind the seconds is written. -/
def behindText : Bytes :=
  (stamp.fraction.elim [] fun fraction => fraction.text) ++ if stamp.zulu then [ascii 'Z'] else []

/-- How a timestamp is written, with the mark that separates the time from the date. -/
def text (separator : Byte) : Bytes :=
  paddedDecimal 4 stamp.year ++ ascii '-' ::
    (paddedDecimal 2 stamp.month ++ ascii '-' :: (paddedDecimal 2 stamp.day ++
    separator :: (paddedDecimal 2 stamp.hour ++ ascii ':' :: (paddedDecimal 2 stamp.minute ++
      ascii ':' :: (paddedDecimal 2 stamp.second ++ stamp.behindText)))))

/-- The microseconds of a fraction. -/
def fractionMicros : Nat := stamp.fraction.elim 0 fun fraction => fraction.micros

/-- The instant that a timestamp denotes, in microseconds from the epoch. -/
def instant : Int :=
  (sysDays stamp.year stamp.month stamp.day * 86400 +
    (stamp.hour * 3600 + stamp.minute * 60 + stamp.second : Nat)) *
    1000000 + stamp.fractionMicros

section Literals

variable {separator : Byte} (known : separator = ascii 'T' ∨ separator = ascii ' ')

/-- A time of day of the logs is one of the query language, and not the end of the day. -/
theorem isIsoClock_of_isTimeOfDay {hour minute second : Nat}
    (time : isTimeOfDay hour minute second = true) :
    isIsoClock hour minute second = true ∧ hour ≤ 23 := by
  simp only [isTimeOfDay, isIsoClock, Bool.and_eq_true, decide_eq_true_eq, Bool.not_eq_true',
    Bool.and_eq_false_iff,
    beq_eq_false_iff_ne] at time ⊢
  omega

/-- A timestamp as a literal of the query language. -/
def literal : IsoLiteral where
  year := stamp.year
  month := stamp.month
  day := stamp.day
  time := some {
    separator
    clock := ⟨stamp.hour, stamp.minute, some stamp.second,
      (isIsoClock_of_isTimeOfDay stamp.time_ok).1⟩
    fraction := stamp.fraction.map (·.toIsoFraction)
    zone := if stamp.zulu then some .utc else none
    separator_ok := known
    endOfDay := fun late => absurd late.1
      (by have := (isIsoClock_of_isTimeOfDay stamp.time_ok).2; simp only; omega) }
  year_ok := stamp.year_ok
  date_ok := stamp.date_ok

/-- The literal is written like the timestamp. -/
theorem literal_text : (stamp.literal known).text = stamp.text separator := by
  -- The fraction and the zone are written alike on both sides.
  have behind : ((stamp.fraction.map (·.toIsoFraction)).elim [] IsoFraction.text ++
      (if stamp.zulu then some IsoZone.utc else none).elim [] IsoZone.text) = stamp.behindText := by
    unfold behindText
    cases stamp.fraction <;> cases stamp.zulu <;> rfl
  simp only [IsoLiteral.text, literal, Option.elim_some, IsoTime.text, IsoClock.text, behind, text,
    List.append_assoc,
    List.cons_append]

/-- The literal denotes the same instant. -/
theorem literal_instant : (stamp.literal known).instant = stamp.instant := by
  have fraction : (stamp.fraction.map (·.toIsoFraction)).elim 0 IsoFraction.micros =
      stamp.fractionMicros := by
    unfold fractionMicros
    cases stamp.fraction <;> rfl
  -- UTC and no zone both leave the instant alone.
  have zone : (if stamp.zulu then some IsoZone.utc else none).elim 0 IsoZone.seconds = 0 := by
    cases stamp.zulu <;> rfl
  simp only [IsoLiteral.instant, literal, Option.elim_some, IsoTime.micros, IsoClock.seconds,
    Option.getD_some, fraction,
    zone, instant, microsPerSecond]
  ring

/-- An instant of the logs is one of the counts of 64 bits. -/
theorem toInt_instant : (Int64.ofInt stamp.instant).toInt = stamp.instant := by
  rw [← stamp.literal_instant (.inl rfl)]
  exact IsoLiteral.toInt_instant _

end Literals

end LogTimestamp

section Fractions

variable {digits behind : Bytes}

/-- A byte has a value if it is a digit. -/
theorem digitValue_isSome (byte : Byte) : (digitValue byte).isSome = isDecimalDigit byte := by
  rw [digitValue_eq]
  cases isDecimalDigit byte <;> rfl

/-- The digits of a fraction are the ones in front of its zone. -/
theorem takeWhile_fraction (all : digits.all isDecimalDigit = true) (few : digits.length ≤ 6)
    (zone : behind = [] ∨ behind = [ascii 'Z']) :
    ((digits ++ behind).take 6).takeWhile (fun byte => (digitValue byte).isSome) = digits := by
  simp only [digitValue_isSome]
  -- Six bytes reach at least to the end of the digits, and a zone is no digit.
  rw [List.take_append, List.take_of_length_le few,
    List.takeWhile_append_of_pos (List.all_eq_true.mp all)]
  -- Nothing of the zone is taken along.
  have none_ : (behind.take (6 - digits.length)).takeWhile isDecimalDigit = [] := by
    rcases zone with rfl | rfl
    · rw [List.take_nil, List.takeWhile_nil]
    · cases 6 - digits.length with
      | zero => rfl
      | succ more => rw [List.take_succ_cons, List.take_nil]; decide
  rw [none_, List.append_nil]

/-- Up to six digits are scaled to microseconds. -/
theorem parseFixedDigits_fraction (all : digits.all isDecimalDigit = true)
    (few : digits.length ≤ 6) :
    (parseFixedDigits digits 0 digits.length).map (· * 10 ^ (6 - digits.length)) =
      some (digitsValue (digits.take 6) * 10 ^ (6 - (digits.take 6).length)) := by
  rw [parseFixedDigits_eq, List.drop_zero, List.take_length, if_pos all, List.take_of_length_le few,
    Option.map_some]

/-- The part behind the seconds is read exactly from a fraction and a zone, either of
which may be missing. -/
theorem parseIsoFraction_eq_some_iff {rest : Bytes} {micros : Nat} :
    parseIsoFraction rest = some micros ↔
      ∃ (fraction : Option LogFraction) (zulu : Bool),
        (fraction.elim [] fun fraction => fraction.text) ++ (if zulu then [ascii 'Z']
          else []) = rest ∧
        (fraction.elim 0 fun fraction => fraction.micros) = micros := by
  constructor
  · intro read
    cases rest with
    -- Nothing behind the seconds is no fraction and no zone.
    | nil => exact ⟨none, false, rfl, Option.some.inj read⟩
    | cons mark more =>
      simp only [parseIsoFraction] at read
      -- Without a mark there is only a zone left.
      split at read
      · rename_i marked
        split at read
        · cases read
        · rename_i some_
          split at read
          · rename_i zone
            -- Behind a mark stand the digits of the fraction, and behind them the zone.
            let digits := (more.take 6).takeWhile fun byte => (digitValue byte).isSome
            have all : digits.all isDecimalDigit = true := by
              refine List.all_eq_true.mpr fun byte listed => ?_
              rw [← digitValue_isSome]
              exact List.mem_takeWhile_imp (p := fun byte => (digitValue byte).isSome) listed
            have few : digits.length ≤ 6 :=
              (List.takeWhile_sublist _).length_le.trans (List.length_take_le 6 more)
            -- The digits are in front of what they leave.
            have whole : digits ++ more.drop digits.length = more := by
              have front : digits <+: more :=
                (List.takeWhile_prefix _).trans (List.take_prefix 6 more)
              exact List.prefix_append_drop front |>.symm
            rw [parseFixedDigits_fraction all few] at read
            let fraction : LogFraction := ⟨⟨mark, digits, marked, all⟩, some_, few⟩
            rcases zone with ends | zulu
            · refine ⟨some fraction, false, ?_, Option.some.inj read⟩
              have same : digits = more := by rw [← whole, ends, List.append_nil]
              simp [fraction, IsoFraction.text, same]
            · refine ⟨some fraction, true, ?_, Option.some.inj read⟩
              have same : digits ++ [ascii 'Z'] = more := by rw [← zulu, whole]
              simp [fraction, IsoFraction.text, same]
          · cases read
      · split at read
        · rename_i zulu
          exact ⟨none, true, zulu.symm, Option.some.inj read⟩
        · cases read
  · rintro ⟨_ | ⟨⟨mark, digits, marked, all⟩, some_, few⟩, zulu, rfl, rfl⟩
    · cases zulu <;> rfl
    · -- The digits that are written are read as a whole, whichever zone follows them.
      obtain ⟨behind, written, zone⟩ : ∃ behind, (if zulu = true then [ascii 'Z']
        else []) = behind ∧ (behind = [] ∨ behind = [ascii 'Z']) := by
        cases zulu with
        | false => exact ⟨[], rfl, .inl rfl⟩
        | true => exact ⟨_, rfl, .inr rfl⟩
      simp only [Option.elim_some, IsoFraction.text, List.cons_append, written, parseIsoFraction,
        if_pos marked,
        takeWhile_fraction all few zone, if_neg some_, List.drop_left, if_pos zone,
        parseFixedDigits_fraction all few,
        IsoFraction.micros]

end Fractions

section Timestamps

variable {text : Bytes} {separator : Byte} {value : Int64}

/-- What the log side reads is exactly what a timestamp denotes, and what is not the text of a
timestamp is not read. -/
theorem tryParseIsoTimestamp_eq_some_iff :
    tryParseIsoTimestamp text separator = some value ↔
      ∃ stamp : LogTimestamp, stamp.text separator = text ∧ stamp.instant = value.toInt := by
  constructor
  · intro read
    simp only [tryParseIsoTimestamp, Option.bind_eq_bind, Option.bind_eq_some_iff,
      Option.guard_eq_some', Option.pure_def,
      Option.some.injEq, parseIsoFraction_eq_some_iff] at read
    obtain ⟨-, enough, year, yearRead, -, dash, month, monthRead, -, secondDash, day, dayRead, -,
      separated, hour, hourRead,
      -, colon, minute, minuteRead, -, secondColon, second, secondRead, micros,
      ⟨fraction, zulu, behind, rfl⟩, -, time_ok,
      -, date_ok, rfl⟩ := read
    -- Each field of digits is written as the number that it is read as.
    obtain ⟨year_ok, yearText⟩ := drop_of_parseFixedDigits (by decide) (by omega) yearRead
    obtain ⟨-, monthText⟩ := drop_of_parseFixedDigits (by decide) (by omega) monthRead
    obtain ⟨-, dayText⟩ := drop_of_parseFixedDigits (by decide) (by omega) dayRead
    obtain ⟨-, hourText⟩ := drop_of_parseFixedDigits (by decide) (by omega) hourRead
    obtain ⟨-, minuteText⟩ := drop_of_parseFixedDigits (by decide) (by omega) minuteRead
    obtain ⟨-, secondText⟩ := drop_of_parseFixedDigits (by decide) (by omega) secondRead
    let stamp : LogTimestamp :=
      ⟨year, month, day, hour, minute, second, fraction, zulu, year_ok, date_ok, time_ok⟩
    refine ⟨stamp, ?_, stamp.toInt_instant.symm⟩
    -- Put together, the fields and the marks between them are the text.
    rw [List.drop_zero] at yearText
    rw [yearText, drop_of_getElem? dash, monthText, drop_of_getElem? secondDash, dayText,
      drop_of_getElem? separated,
      hourText, drop_of_getElem? colon, minuteText, drop_of_getElem? secondColon,
      secondText, ← behind]
    rfl
  · rintro ⟨stamp, rfl, denoted⟩
    obtain ⟨month_ok, day_ok⟩ := lt_of_isDate stamp.date_ok
    obtain ⟨hour_ok, minute_ok, second_ok⟩ :=
      lt_of_isIsoClock (LogTimestamp.isIsoClock_of_isTimeOfDay stamp.time_ok).1
    have two {value : Nat} (small : value < 100) : (paddedDecimal 2 value).length = 2 :=
      length_paddedDecimal (by decide) small
    -- The parts of the text, each behind the one before it.
    have yearText : (stamp.text separator).drop 0 = paddedDecimal 4 stamp.year ++ _ := rfl
    have dash : (stamp.text separator).drop 4 = ascii '-' :: _ :=
      drop_behind yearText (length_paddedDecimal (by decide) stamp.year_ok)
    have monthText : (stamp.text separator).drop 5 = paddedDecimal 2 stamp.month ++ _ :=
      drop_mark dash
    have secondDash : (stamp.text separator).drop 7 = ascii '-' :: _ :=
      drop_behind monthText (two month_ok)
    have dayText : (stamp.text separator).drop 8 = paddedDecimal 2 stamp.day ++ _ :=
      drop_mark secondDash
    have separated : (stamp.text separator).drop 10 = separator :: _ :=
      drop_behind dayText (two day_ok)
    have hourText : (stamp.text separator).drop 11 = paddedDecimal 2 stamp.hour ++ _ :=
      drop_mark separated
    have colon : (stamp.text separator).drop 13 = ascii ':' :: _ :=
      drop_behind hourText (two hour_ok)
    have minuteText : (stamp.text separator).drop 14 = paddedDecimal 2 stamp.minute ++ _ :=
      drop_mark colon
    have secondColon : (stamp.text separator).drop 16 = ascii ':' :: _ :=
      drop_behind minuteText (two minute_ok)
    have secondText : (stamp.text separator).drop 17 = paddedDecimal 2 stamp.second ++ _ :=
      drop_mark secondColon
    have behind : (stamp.text separator).drop 19 = stamp.behindText :=
      drop_behind secondText (two second_ok)
    have enough : 19 ≤ (stamp.text separator).length := by
      have whole := congrArg List.length secondText
      rw [List.length_drop, List.length_append, two second_ok] at whole
      omega
    have fraction := parseIsoFraction_eq_some_iff.mpr ⟨stamp.fraction, stamp.zulu, behind.symm, rfl⟩
    -- The timestamp is the count of microseconds of the fields.
    have same : timeStampOf stamp.year stamp.month stamp.day stamp.hour stamp.minute stamp.second
        stamp.fractionMicros = value := by
      rw [← Int64.ofInt_toInt value, ← denoted]
      rfl
    simp only [tryParseIsoTimestamp, Option.bind_eq_bind, Option.bind_eq_some_iff,
      Option.guard_eq_some', Option.pure_def,
      Option.some.injEq]
    exact ⟨(), enough, _, parseFixedDigits_of_drop (by decide) stamp.year_ok yearText, (),
      getElem?_of_drop dash,
      _, parseFixedDigits_of_drop (by decide) month_ok monthText, (), getElem?_of_drop secondDash,
      _, parseFixedDigits_of_drop (by decide) day_ok dayText, (), getElem?_of_drop separated,
      _, parseFixedDigits_of_drop (by decide) hour_ok hourText, (), getElem?_of_drop colon,
      _, parseFixedDigits_of_drop (by decide) minute_ok minuteText, (),
      getElem?_of_drop secondColon,
      _, parseFixedDigits_of_drop (by decide) second_ok secondText, _, fraction, (), stamp.time_ok,
      (), stamp.date_ok, same⟩

/-- The log side and the query language agree: the log side reads exactly the texts of the
timestamps, with the mark that it is given, and with either mark of the query language both read the
same instant. -/
theorem timestamps_agree (text : Bytes) {separator : Byte}
    (known : separator = ascii 'T' ∨ separator = ascii ' ') :
    ((tryParseIsoTimestamp text separator).isSome ↔ ∃ stamp : LogTimestamp,
      stamp.text separator = text) ∧
      (∀ stamp : LogTimestamp, stamp.text separator = text →
        (tryParseIsoTimestamp text separator).map Int64.toInt = some stamp.instant) ∧
      ∀ logged queried, tryParseIsoTimestamp text separator = some logged →
        parseIsoTimestamp text = some queried →
        logged = queried := by
  -- Every written timestamp is read, and as the instant that it denotes.
  have read (stamp : LogTimestamp) (written : stamp.text separator = text) :
      tryParseIsoTimestamp text separator = some (Int64.ofInt stamp.instant) :=
    tryParseIsoTimestamp_eq_some_iff.mpr ⟨stamp, written, stamp.toInt_instant.symm⟩
  refine ⟨⟨fun accepted => ?_, fun ⟨stamp, written⟩ => ?_⟩, fun stamp written => ?_,
    fun logged queried loggedRead queriedRead => ?_⟩
  · obtain ⟨value, accepted⟩ := Option.isSome_iff_exists.mp accepted
    obtain ⟨stamp, written, -⟩ := tryParseIsoTimestamp_eq_some_iff.mp accepted
    exact ⟨stamp, written⟩
  · rw [read stamp written, Option.isSome_some]
  · rw [read stamp written, Option.map_some, stamp.toInt_instant]
  · -- A timestamp of the logs is a literal of the query language, and denotes the same there.
    obtain ⟨stamp, written, denoted⟩ := tryParseIsoTimestamp_eq_some_iff.mp loggedRead
    have literal := (parseIsoTimestamp_eq_some text logged).mpr
      ⟨stamp.literal known, (stamp.literal_text known).trans written,
        (stamp.literal_instant known).trans denoted⟩
    exact Option.some.inj (literal.symm.trans queriedRead)

/-- The last second of a leap year, written with a comma. -/
theorem timestamps_agree_comma : ∃ logged, tryParseIsoTimestamp (bytes "2024-12-31 23:59:60,25Z")
    (ascii ' ') = some logged ∧
    parseIsoTimestamp (bytes "2024-12-31 23:59:60,25Z") = some logged := by
  obtain ⟨-, -, agree⟩ := timestamps_agree (bytes "2024-12-31 23:59:60,25Z") (.inr rfl)
  -- Both readers are evaluated on the text.
  obtain ⟨logged, loggedRead⟩ : ∃ logged,
    tryParseIsoTimestamp (bytes "2024-12-31 23:59:60,25Z") (ascii ' ') = some logged :=
    Option.isSome_iff_exists.mp (by decide +kernel)
  obtain ⟨queried, queriedRead⟩ : ∃ queried,
    parseIsoTimestamp (bytes "2024-12-31 23:59:60,25Z") = some queried :=
    Option.isSome_iff_exists.mp (by decide +kernel)
  exact ⟨logged, loggedRead, agree logged queried loggedRead queriedRead ▸ queriedRead⟩

end Timestamps

end Loglib.Query
