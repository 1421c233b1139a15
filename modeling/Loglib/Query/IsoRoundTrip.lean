import Loglib.Query.IsoLiterals

/-! Instants are read as they were printed, and no text is read that is not a literal. -/

namespace Loglib.Query

/-- The instant is in a year from 0 to 9999, of UTC. -/
def HasFourDigitYear (micros : Int64) : Prop :=
  sysDays 0 1 1 * 86400 * microsPerSecond ≤ micros.toInt ∧
    micros.toInt < sysDays 10000 1 1 * 86400 * microsPerSecond

/-- Division that rounds down, from the one that rounds to zero and borrows. -/
theorem floor_of_tdiv (value : Int) {unit : Int} (positive : 0 < unit) :
    (value.tdiv unit - if value.tmod unit < 0 then 1 else 0) = value / unit ∧
      (value.tmod unit + if value.tmod unit < 0 then unit else 0) = value % unit := by
  have sign : unit.sign = 1 := Int.sign_eq_one_of_pos positive
  have absolute : (unit.natAbs : Int) = unit := Int.natAbs_of_nonneg (by omega)
  have low := Int.emod_nonneg value (show unit ≠ 0 by omega)
  have high := Int.emod_lt_of_pos value positive
  rw [Int.tdiv_eq_ediv, Int.tmod_eq_emod, sign]
  by_cases exact_ : 0 ≤ value ∨ unit ∣ value
  · -- The two divisions agree, and the remainder is not negative.
    simp only [if_pos exact_, Nat.cast_zero, Int.add_zero, Int.sub_zero,
      if_neg (show ¬value % unit < 0 by omega), and_self]
  · -- The remainder of the other division is one unit lower, so that one is borrowed.
    simp only [if_neg exact_, absolute, if_pos (show value % unit - unit < 0 by omega)]
    omega

section Printed

variable {micros : Int64}

/-- The instant is printed by its day, its second of the day and the microseconds of this. -/
theorem formatTimestampMicros_eq (micros : Int64) :
    formatTimestampMicros micros =
      let date := civilFromDays (micros.toInt / microsPerSecond / 86400)
      let secondOfDay := (micros.toInt / microsPerSecond % 86400).toNat
      if date.year < 0 ∨ 9999 < date.year then bytes "epoch_micros:" ++ decimalInt micros.toInt
      else
        paddedDecimal 4 date.year.toNat ++ ascii '-' :: paddedDecimal 2 date.month ++ ascii '-' ::
          paddedDecimal 2 date.day ++
          ascii 'T' :: paddedDecimal 2 (secondOfDay / 3600) ++ ascii ':' :: paddedDecimal 2
            (secondOfDay % 3600 / 60) ++
          ascii ':' :: paddedDecimal 2 (secondOfDay % 60) ++
          ascii '.' :: paddedDecimal 6 (micros.toInt % microsPerSecond).toNat ++ [ascii 'Z'] := by
  have seconds := floor_of_tdiv micros.toInt (show 0 < microsPerSecond by decide)
  have days := floor_of_tdiv (micros.toInt / microsPerSecond) (show (0 : Int) < 86400 by decide)
  simp only [formatTimestampMicros, seconds.1, seconds.2, days.1, days.2]

/-- The years that are printed are those of four digits. -/
theorem hasFourDigitYear_iff :
    HasFourDigitYear micros ↔
      ¬((civilFromDays (micros.toInt / microsPerSecond / 86400)).year < 0 ∨
        9999 < (civilFromDays (micros.toInt / microsPerSecond / 86400)).year) := by
  have years := civilFromDays_year_iff (micros.toInt / microsPerSecond / 86400)
  simp only [HasFourDigitYear, microsPerSecond] at years ⊢
  omega

/-- What is printed for an instant of such a year is a literal that denotes it. -/
theorem exists_printed (year : HasFourDigitYear micros) :
    ∃ literal : IsoLiteral, literal.text = formatTimestampMicros micros ∧
      literal.instant = micros.toInt := by
  have printed := hasFourDigitYear_iff.mp year
  obtain ⟨sameDays, date_ok⟩ :=
    @sysDays_civilFromDays (micros.toInt / microsPerSecond / 86400) (by omega)
  rw [formatTimestampMicros_eq]
  dsimp only
  rw [if_neg printed]
  generalize civilFromDays (micros.toInt / microsPerSecond / 86400) = date at *
  obtain ⟨secondOfDay, ofDay⟩ : ∃ secondOfDay,
    (micros.toInt / microsPerSecond % 86400).toNat = secondOfDay := ⟨_, rfl⟩
  obtain ⟨remainder, ofSecond⟩ : ∃ remainder, (micros.toInt % microsPerSecond).toNat = remainder :=
    ⟨_, rfl⟩
  -- The microseconds of a second have six digits, and its clock is one of the day.
  have remainder_lt : remainder < 10 ^ 6 := by
    simp only [microsPerSecond] at ofSecond
    omega
  have digits : (paddedDecimal 6 remainder).all isDecimalDigit = true :=
    List.all_eq_true.mpr fun _ member => isDecimalDigit_of_mem_paddedDecimal member
  have length := length_paddedDecimal (show 0 < 6 by omega) remainder_lt
  have clock_ok : isIsoClock (secondOfDay / 3600) (secondOfDay % 3600 / 60)
      ((some (secondOfDay % 60)).getD 0) = true := by
    simp only [isIsoClock, Option.getD_some, Bool.and_eq_true, decide_eq_true_eq, Bool.not_eq_true',
      Bool.and_eq_false_iff,
      beq_eq_false_iff_ne]
    omega
  let clock : IsoClock := ⟨secondOfDay / 3600, secondOfDay % 3600 / 60,
    some (secondOfDay % 60), clock_ok⟩
  let fraction : IsoFraction := ⟨ascii '.', paddedDecimal 6 remainder, .inl rfl, digits⟩
  have fractionMicros : fraction.micros = remainder := by
    simp only [IsoFraction.micros, fraction, List.take_of_length_le length.le, length,
      digitsValue_paddedDecimal]
    omega
  -- No instant is printed at hour 24.
  have endOfDay : ¬(clock.hour = 24 ∧ (some fraction).elim 0 IsoFraction.micros ≠ 0) := by
    simp only [clock]
    omega
  let time : IsoTime := ⟨ascii 'T', clock, some fraction, some .utc, .inl rfl, endOfDay⟩
  refine ⟨⟨date.year.toNat, date.month, date.day, some time, by omega, date_ok⟩, ?_, ?_⟩
  · simp [IsoLiteral.text, IsoTime.text, IsoClock.text, IsoFraction.text, IsoZone.text, time, clock,
      fraction, ofDay, ofSecond]
  · -- Day, second and microsecond together are the instant.
    have seconds : clock.seconds = secondOfDay := by
      simp only [IsoClock.seconds, clock, Option.getD_some]
      omega
    simp only [IsoLiteral.instant, Option.elim_some, IsoTime.micros, time, seconds, fractionMicros,
      sameDays, IsoZone.seconds,
      microsPerSecond] at ofDay ofSecond ⊢
    omega

/-- The marker of the other years starts with no digit. -/
theorem parseIsoTimestamp_marker (rest : Bytes) :
    parseIsoTimestamp (bytes "epoch_micros:" ++ rest) = none := rfl

end Printed

/-- Exactly the instants of the years 0 to 9999 are read as they were printed. And exactly the
literals of the grammar are read, each as the instant that it denotes. -/
theorem isoTimestamps_read :
    (∀ micros : Int64, parseIsoTimestamp (formatTimestampMicros micros) = some micros ↔
    HasFourDigitYear micros) ∧
      ∀ (text : Bytes) (micros : Int64), parseIsoTimestamp text = some micros ↔
        ∃ literal : IsoLiteral, literal.text = text ∧ literal.instant = micros.toInt := by
  refine ⟨fun micros => ⟨fun read => ?_, fun year =>
    (parseIsoTimestamp_eq_some _ _).mpr (exists_printed year)⟩,
    parseIsoTimestamp_eq_some⟩
  -- The marker of the other years is no literal.
  by_contra other
  have printed : formatTimestampMicros micros = bytes "epoch_micros:" ++
      decimalInt micros.toInt := by
    rw [formatTimestampMicros_eq]
    exact if_pos (not_not.mp (mt hasFourDigitYear_iff.mpr other))
  rw [printed, parseIsoTimestamp_marker] at read
  cases read

/-- A leap second ends a day of UTC. The count of its seconds is that of the second behind it. -/
def IsoTime.IsTimeOfDay (time : IsoTime) : Prop :=
  time.clock.second.getD 0 = 60 →
    (time.clock.seconds - time.zone.elim 0 IsoZone.seconds : Int) % 86400 = 0

/-- The date, the clock and the zone of a literal with a time are those that are read from
its text. -/
theorem IsoLiteral.readParts (literal : IsoLiteral) :
    readIsoDate literal.text = some
      ((literal.year, literal.month, literal.day), literal.time.elim [] IsoTime.text) ∧
      ∀ time, literal.time = some time →
        readIsoClock (time.text.drop 1) = some
          ((time.clock.hour, time.clock.minute, time.clock.second.getD 0),
          time.fraction.elim [] IsoFraction.text ++ time.zone.elim [] IsoZone.text) ∧
        readZone (readFraction (time.fraction.elim [] IsoFraction.text ++
          time.zone.elim [] IsoZone.text)).2 =
          some (time.zone.elim 0 IsoZone.seconds, []) := by
  refine ⟨readIsoDate_eq_some_iff.mpr ⟨⟨literal.year_ok, literal.date_ok⟩, rfl⟩,
    fun time _ => ⟨?_, ?_⟩⟩
  · exact readIsoClock_eq_some_iff.mpr ⟨time.clock, rfl, rfl, rfl, rfl, fun _ =>
      head_behindClock time.fraction time.zone⟩
  · rw [readFraction_time]
    exact readZone_eq_some_iff.mpr ⟨time.zone, rfl, rfl⟩

/-- A leap second is read in any minute of the day, where no clock has one. -/
theorem leapSecond_of_any_minute :
    parseIsoTimestamp (bytes "2024-01-02T12:34:60Z") = some 1704198900000000 ∧
      ¬∃ literal : IsoLiteral, literal.text = bytes "2024-01-02T12:34:60Z" ∧
        ∀ time, literal.time = some time → time.IsTimeOfDay := by
  refine ⟨by decide +kernel, ?_⟩
  rintro ⟨literal, written, timeOfDay⟩
  obtain ⟨dateRead, timeRead⟩ := literal.readParts
  have date : readIsoDate (bytes "2024-01-02T12:34:60Z") = some ((2024, 1, 2),
      bytes "T12:34:60Z") := by decide
  rw [written, date] at dateRead
  have behindDate : bytes "T12:34:60Z" = literal.time.elim [] IsoTime.text :=
    (Prod.mk.inj (Option.some.inj dateRead)).2
  -- The text has a time behind its date.
  cases hasTime : literal.time with
  | none =>
    rw [hasTime] at behindDate
    exact absurd behindDate (by decide)
  | some time =>
    obtain ⟨clockRead, zoneRead⟩ := timeRead time hasTime
    rw [hasTime] at behindDate
    have clock : readIsoClock (bytes "12:34:60Z") = some ((12, 34, 60), bytes "Z") := by decide
    have behindMark : time.text.drop 1 = bytes "12:34:60Z" :=
      (congrArg (List.drop 1) behindDate).symm
    rw [behindMark, clock] at clockRead
    obtain ⟨fields, behindClock⟩ := Prod.mk.inj (Option.some.inj clockRead)
    obtain ⟨hour, minuteSecond⟩ := Prod.mk.inj fields
    obtain ⟨minute, second⟩ := Prod.mk.inj minuteSecond
    rw [← behindClock] at zoneRead
    have zone : (0 : Int) = time.zone.elim 0 IsoZone.seconds :=
      (Prod.mk.inj (Option.some.inj zoneRead)).1
    -- The second behind it is no midnight of UTC.
    have ends := timeOfDay time hasTime second.symm
    rw [← zone, IsoClock.seconds, ← hour, ← minute, ← second] at ends
    exact absurd ends (by decide)

end Loglib.Query
