import Loglib.Query.IsoLiterals
import Loglib.Query.QueryParser

/-! Which token the scanner finds: for columns as they are printed, and for the timestamps
of the grammar. -/

namespace Loglib.Query

/-- What holds of all values of a byte holds of the byte. -/
theorem forall_byte {holds : Byte → Prop} [DecidablePred holds]
    (all : ∀ value : Fin 256, holds (UInt8.ofNat value))
    (byte : Byte) : holds byte := by
  have found := all ⟨byte.toNat, UInt8.toNat_lt byte⟩
  rwa [UInt8.ofNat_toNat] at found

/-- The byte starts no token before numbers and identifiers are tried. -/
def startsWord (byte : Byte) : Bool :=
  [quotationMark, ascii '>', ascii '<', ascii '.', ascii '&', ascii '|',
    ascii '!'].all (byte != ·) &&
    (singleByteTokens.lookup byte).isNone && !isSpace byte

/-- Digits and letters do not. -/
theorem startsWord_of_isIdentChar (byte : Byte) :
    (isDecimalDigit byte = true ∨ isIdentStart byte = true) → startsWord byte = true := by
  revert byte
  exact forall_byte (by decide +kernel)

/-- An identifier starts with no digit, sign or white space. -/
theorem isIdentStart_ne (byte : Byte) :
    isIdentStart byte = true →
      isDecimalDigit byte = false ∧ byte ≠ ascii '+' ∧ byte ≠ ascii '-' ∧
        isIdentChar byte = true := by
  revert byte
  exact forall_byte (by decide +kernel)

namespace Lexer

section Dispatch

variable {size : Nat} {rest behind : Bytes} {ch : Byte}

/-- White space in front is skipped. -/
theorem next_space (rest : Bytes) : next ⟨size, ascii ' ' :: rest⟩ = next ⟨size, rest⟩ := by
  have space : isSpace (ascii ' ') = true := rfl
  simp [next, skipWhitespace, atRest, space]

/-- Other bytes start a token. -/
theorem next_cons (visible : isSpace ch = false) :
    next ⟨size, ch :: behind⟩ = lexFrom ⟨size, ch :: behind⟩ ch behind := by
  simp [next, skipWhitespace, atRest, visible]

/-- A token of one byte. -/
theorem next_single {kind : TokenKind} (visible : isSpace ch = false) (plain : ch ≠ quotationMark)
    (single : singleByteTokens.lookup ch = some kind) :
    next ⟨size, ch :: behind⟩ = .ok
      ({ kind, text := [], offset := position ⟨size, ch :: behind⟩ }, ⟨size, behind⟩) := by
  rw [next_cons visible, lexFrom, if_neg plain, single]
  rfl

/-- Two dots. -/
theorem next_dotDot (behind : Bytes) :
    next ⟨size, ascii '.' :: ascii '.' :: behind⟩ =
      .ok ({ kind := .dotDot, text := []
             offset := position ⟨size, ascii '.' :: ascii '.' :: behind⟩ }, ⟨size, behind⟩) := by
  rfl

/-- One dot starts no token. -/
theorem next_dot (single : behind.head? ≠ some (ascii '.')) :
    ∃ failed, next ⟨size, ascii '.' :: behind⟩ = .error failed := by
  have visible : isSpace (ascii '.') = false := rfl
  have plain : ascii '.' ≠ quotationMark := by decide
  have unlisted : singleByteTokens.lookup (ascii '.') = none := rfl
  -- A dot is neither a digit nor a sign.
  have noDigit : ¬(isDecimalDigit (ascii '.') = true ∨
      ((ascii '.' = ascii '+' ∨ ascii '.' = ascii '-') ∧
        behind.head?.any isDecimalDigit = true)) := by
    rintro (digit | ⟨sign, -⟩)
    · exact absurd digit (by decide)
    · exact absurd sign (by decide)
  rw [next_cons visible, lexFrom, if_neg plain, unlisted]
  dsimp only
  rw [if_neg (by decide), if_neg (by decide), if_neg fun pair => single pair.2, if_neg fun pair =>
    absurd pair.1 (by decide),
    if_neg fun pair => absurd pair.1 (by decide), if_neg (by decide), if_neg noDigit,
    if_neg (by decide)]
  exact ⟨_, rfl⟩

/-- Words are numbers, timestamps and identifiers. -/
theorem lexFrom_word (lexer : Lexer) (word : startsWord ch = true) :
    lexer.lexFrom ch behind =
      if isDecimalDigit ch ∨ ((ch = ascii '+' ∨ ch = ascii '-') ∧
        behind.head?.any isDecimalDigit) then lexer.lexDigits
      else if isIdentStart ch then lexer.lexIdent
      else lexer.failAt lexer.rest (bytes "unexpected character '" ++ [ch] ++ bytes "'") := by
  simp only [startsWord, List.all_cons, List.all_nil, Bool.and_true, Bool.and_eq_true,
    bne_iff_ne, ne_eq,
    Option.isNone_iff_eq_none] at word
  -- A word starts with none of the marks, so all the branches before the words are passed.
  obtain ⟨⟨⟨plain, gt, lt, dot, and_, or_, not_⟩, unlisted⟩, -⟩ := word
  simp only [lexFrom, if_neg plain, unlisted, if_neg gt, if_neg lt, if_neg not_, dot, and_, or_,
    false_and, if_false]

/-- A word is visible. -/
theorem isSpace_of_startsWord (word : startsWord ch = true) : isSpace ch = false := by
  simp only [startsWord, Bool.and_eq_true, Bool.not_eq_true'] at word
  exact word.2

/-- A digit starts a number or a timestamp. -/
theorem next_digit (digit : isDecimalDigit ch = true) :
    next ⟨size, ch :: behind⟩ = lexDigits ⟨size, ch :: behind⟩ := by
  have word := startsWord_of_isIdentChar ch (.inl digit)
  rw [next_cons (isSpace_of_startsWord word), lexFrom_word _ word, if_pos (.inl digit)]

/-- A letter starts an identifier. -/
theorem next_ident (start : isIdentStart ch = true) :
    next ⟨size, ch :: behind⟩ = lexIdent ⟨size, ch :: behind⟩ := by
  have word := startsWord_of_isIdentChar ch (.inr start)
  obtain ⟨noDigit, noPlus, noMinus, -⟩ := isIdentStart_ne ch start
  rw [next_cons (isSpace_of_startsWord word), lexFrom_word _ word,
    if_neg (by simp [noDigit, noPlus, noMinus]), if_pos start]

end Dispatch

section Columns

variable {size : Nat} {text rest : Bytes}

/-- What is behind an identifier, when no byte of one follows. -/
theorem takeWhile_ident (all : text.all isIdentChar = true)
    (stops : rest.head?.any isIdentChar = false) :
    (text ++ rest).takeWhile isIdentChar = text ∧ (text ++ rest).dropWhile isIdentChar = rest := by
  refine ⟨?_, dropWhile_of_stops all stops⟩
  -- The identifier is taken whole, and the next byte ends it.
  rw [List.takeWhile_append_of_pos (List.all_eq_true.mp all)]
  cases rest with
  | nil => simp
  | cons head tail =>
    have other : isIdentChar head = false := by simpa using stops
    simp [other]

/-- An identifier or keyword, up to what is behind it. -/
theorem lexIdent_append (all : text.all isIdentChar = true)
    (stops : rest.head?.any isIdentChar = false) :
    lexIdent ⟨size, text ++ rest⟩ =
      .ok ({ kind := (keywords.lookup (text.map foldAscii)).getD .ident, text
             offset := position ⟨size, text ++ rest⟩ },
        ⟨size, rest⟩) := by
  obtain ⟨taken, dropped⟩ := takeWhile_ident all stops
  have length : (text ++ rest).length - rest.length = text.length := by
    rw [List.length_append]
    omega
  simp only [lexIdent, taken, dropped, textToken, length, List.take_left, atRest]

/-- A text is its own small letters, whatever the case. -/
theorem equalsIgnoreCaseAscii_fold (text : Bytes) :
    equalsIgnoreCaseAscii text (text.map foldAscii) = true := by
  -- Folding a byte twice is folding it once, for each of the bytes.
  have twice : ∀ byte : Byte, foldAscii (foldAscii byte) = foldAscii byte :=
    forall_byte (by decide +kernel)
  simp only [equalsIgnoreCaseAscii, List.length_map, beq_self_eq_true, Bool.true_and]
  induction text with
  | nil => rfl
  | cons byte text ih =>
    rw [List.map_cons, List.zip_cons_cons, List.all_cons, ih, twice, beq_self_eq_true]
    rfl

/-- What is no keyword is found as none. -/
theorem lookup_keywords (unreserved : (keywords.any fun (keyword, _) =>
    equalsIgnoreCaseAscii text keyword) = false) :
    keywords.lookup (text.map foldAscii) = none := by
  rw [List.lookup_eq_none_iff]
  rintro ⟨keyword, kind⟩ member
  rw [bne_iff_ne]
  rintro same
  -- A keyword that is found would be equal to the text but for the case.
  have reserved := List.any_eq_false.mp unreserved (keyword, kind) member
  obtain rfl : text.map foldAscii = keyword := same
  exact reserved (equalsIgnoreCaseAscii_fold text)

/-- A column is read as it was printed. -/
theorem next_formatIdent (column : Bytes) (stops : rest.head?.any isIdentChar = false) :
    ∃ token, next ⟨size, formatIdent column ++ rest⟩ = .ok
      (token, ⟨size, rest⟩) ∧ token.text = column ∧
      (token.kind = .ident ∨ token.kind = .quoted) := by
  unfold formatIdent
  split
  · -- Between the marks, the escapes are undone.
    have visible : isSpace quotationMark = false := rfl
    have found := untilMark_escapeText column rest
    refine ⟨⟨.quoted, column, position ⟨size, quoteString column ++ rest⟩⟩, ?_, rfl, .inr rfl⟩
    rw [quoteString, List.cons_append, next_cons visible, lexFrom, if_pos rfl]
    simp only [lexQuoted, List.drop_succ_cons, List.drop_zero, List.append_assoc,
      List.singleton_append, found,
      unescapeText_escapeText]
    rfl
  · rename_i plain
    simp only [needsQuoting, Bool.or_eq_true, Bool.not_eq_true', not_or, Bool.not_eq_false,
      Bool.not_eq_true] at plain
    obtain ⟨⟨start, all⟩, unreserved⟩ := plain
    -- A column that needs no marks is an identifier, and no keyword.
    have read := @lexIdent_append size column rest all stops
    rw [lookup_keywords unreserved] at read
    refine ⟨⟨.ident, column, position ⟨size, column ++ rest⟩⟩, ?_, rfl, .inl rfl⟩
    cases column with
    | nil => cases start
    | cons ch tail =>
      rw [List.cons_append, next_ident start]
      exact read

end Columns

end Lexer

section Timestamps

variable {value : Nat} {text rest : Bytes}

/-- Two digits are two bytes, and both are digits. -/
theorem two_digits (small : value < 100) :
    ∃ tens ones, paddedDecimal 2 value = [tens, ones] ∧ isDecimalDigit tens = true ∧
      isDecimalDigit ones = true := by
  have length := length_paddedDecimal (show 0 < 2 by omega) (show value < 10 ^ 2 from small)
  obtain ⟨tens, ones, written⟩ := List.length_eq_two.mp length
  have digit : ∀ byte ∈ [tens, ones], isDecimalDigit byte = true := fun byte member =>
    isDecimalDigit_of_mem_paddedDecimal (by rw [written]; exact member)
  exact ⟨tens, ones, written, digit tens (by simp), digit ones (by simp)⟩

/-- Four digits are four bytes. -/
theorem four_digits (small : value < 10 ^ 4) :
    ∃ first second third fourth, paddedDecimal 4 value = [first, second, third, fourth] ∧
      ∀ byte ∈ [first, second, third, fourth], isDecimalDigit byte = true := by
  have length := length_paddedDecimal (show 0 < 4 by omega) small
  obtain ⟨first, second, third, fourth, written⟩ : ∃ first second third fourth,
      paddedDecimal 4 value = [first, second, third, fourth] := by
    -- No other length is four.
    rcases written : paddedDecimal 4 value with
      _ | ⟨first, _ | ⟨second, _ | ⟨third, _ | ⟨fourth, _ | ⟨fifth, more⟩⟩⟩⟩⟩ <;>
      simp [written] at length
    exact ⟨first, second, third, fourth, rfl⟩
  exact ⟨first, second, third, fourth, written, fun byte member =>
    isDecimalDigit_of_mem_paddedDecimal (by rw [written]; exact member)⟩

/-- The date of a literal has the shape of one, and the rest of the literal is behind it. -/
theorem hasIsoDateShape_text (literal : IsoLiteral) :
    hasIsoDateShape (literal.text ++ rest) = true ∧
      (literal.text ++ rest).drop 10 = literal.time.elim [] IsoTime.text ++ rest := by
  obtain ⟨smallMonth, smallDay⟩ := lt_of_isDate literal.date_ok
  obtain ⟨first, second, third, fourth, year, digits⟩ := four_digits literal.year_ok
  obtain ⟨monthTens, monthOnes, month, monthDigits⟩ := two_digits smallMonth
  obtain ⟨dayTens, dayOnes, day, dayDigits⟩ := two_digits smallDay
  simp only [List.mem_cons, List.not_mem_nil, or_false, forall_eq_or_imp, forall_eq] at digits
  -- With the digits named, the shape is read byte by byte.
  rw [IsoLiteral.text, year, month, day]
  constructor
  · simp [hasIsoDateShape, digits, monthDigits, dayDigits]
  · simp

/-- The clock of a time has the shape of one, and its seconds are behind it. -/
theorem hasIsoClockShape_text (clock : IsoClock) :
    hasIsoClockShape (clock.text ++ rest) = true ∧
      (clock.text ++ rest).drop 5 = (clock.second.elim [] fun second =>
        ascii ':' :: paddedDecimal 2 second) ++ rest := by
  obtain ⟨smallHour, smallMinute, -⟩ := lt_of_isIsoClock clock.ok
  -- Hour and minute are two digits each.
  obtain ⟨hourTens, hourOnes, hour, hourDigits⟩ := two_digits smallHour
  obtain ⟨minuteTens, minuteOnes, minute, minuteDigits⟩ := two_digits smallMinute
  rw [IsoClock.text, hour, minute]
  constructor
  · simp [hasIsoClockShape, hourDigits, minuteDigits]
  · simp

/-- The seconds of a clock are skipped, and nothing else is. -/
theorem skipIsoSeconds_text (clock : IsoClock) (stops : rest.head? ≠ some (ascii ':')) :
    skipIsoSeconds ((clock.second.elim [] fun second => ascii ':' :: paddedDecimal 2 second) ++
      rest) = rest := by
  have smallSecond := (lt_of_isIsoClock clock.ok).2.2
  cases hasSecond : clock.second with
  -- Without seconds, no colon follows, so that nothing is skipped.
  | none => simp [skipIsoSeconds, stops]
  | some second =>
    rw [hasSecond, Option.getD_some] at smallSecond
    obtain ⟨tens, ones, written, digits⟩ := two_digits smallSecond
    simp [skipIsoSeconds, written, digits]

/-- A fraction is skipped up to what is no digit. -/
theorem skipIsoFraction_text (fraction : IsoFraction)
    (stops : rest.head?.any isDecimalDigit = false) :
    skipIsoFraction (fraction.text ++ rest) = rest := by
  have marked : (fraction.text ++ rest).head? = some (ascii '.') ∨
      (fraction.text ++ rest).head? = some (ascii ',') := by
    simpa [IsoFraction.text] using fraction.mark_ok
  rw [skipIsoFraction, if_pos marked]
  exact dropWhile_of_stops fraction.digits_ok stops

/-- A zone is skipped up to what is no digit and no colon. -/
theorem skipIsoZone_text (zone : IsoZone)
    (stops : rest.head?.any (fun byte => byte = ascii ':' || isDecimalDigit byte) = false) :
    skipIsoZone (zone.text ++ rest) = rest := by
  cases zone with
  | utc => rfl
  | offset zone =>
    have digits : ∀ value, (paddedDecimal 2 value).all (fun byte =>
        byte = ascii ':' || isDecimalDigit byte) = true :=
      fun value => List.all_eq_true.mpr fun byte member => by
        rw [isDecimalDigit_of_mem_paddedDecimal member, Bool.or_true]
    -- Hours and minutes are digits, with a colon at most, in each of the forms.
    have all : (paddedDecimal 2 zone.hours ++ zone.form.text zone.minutes).all
        (fun byte => byte = ascii ':' || isDecimalDigit byte) = true := by
      rw [List.all_append, digits, Bool.true_and]
      cases zone.form with
      | hours => rfl
      | colon => rw [ZoneForm.text, List.all_cons, digits]; rfl
      | compact => exact digits _
    have signed : ∀ (west : Bool) (behind : Bytes),
        skipIsoZone (signMark west :: behind) = behind.dropWhile fun byte =>
          byte = ascii ':' || isDecimalDigit byte :=
      fun west _ => by cases west <;> rfl
    rw [IsoZone.text, List.cons_append, signed]
    exact dropWhile_of_stops all stops

/-- The literal ends with the hours and minutes, or the seconds, of its clock. -/
def IsoLiteral.EndsAtClock (literal : IsoLiteral) : Prop :=
  ∃ time, literal.time = some time ∧ time.fraction = none ∧ time.zone = none

/-- A bracket ends every time, and a dot ends those that have a fraction or a zone. -/
theorem skipIsoTime_text (time : IsoTime) {mark : Byte}
    (ends : mark = ascii ']' ∨ (mark = ascii '.' ∧ ¬(time.fraction = none ∧ time.zone = none))) :
    skipIsoTime (time.text ++ mark :: rest) = mark :: rest := by
  obtain ⟨separator, clock, fraction, zone, separator_ok, endOfDay⟩ := time
  have separated : separator = ascii 'T' ∨ separator = ascii ' ' := separator_ok
  have noDigit : ∀ mark : Byte, mark = ascii ']' ∨ mark = ascii '.' →
      (isDecimalDigit mark = false ∧ mark ≠ ascii ':' ∧ mark ≠ ascii 'Z' ∧ mark ≠ ascii '+' ∧
        mark ≠ ascii '-') := by
    rintro mark (rfl | rfl) <;> decide
  obtain ⟨digit, colon, utc, plus, minus⟩ := noDigit mark (ends.imp_right And.left)
  -- What is behind the fraction is a zone, or the mark.
  have zoneSkipped : skipIsoZone (zone.elim [] IsoZone.text ++ mark :: rest) = mark :: rest := by
    cases zone with
    | none => simp [skipIsoZone, utc, plus, minus]
    | some zone => exact skipIsoZone_text zone (by simp [digit, colon])
  have zoneHead := head_zone_ne zone
  have behindFraction : (zone.elim [] IsoZone.text ++ mark :: rest).head?.any isDecimalDigit =
    false ∧
      (zone.elim [] IsoZone.text ++ mark :: rest).head? ≠ some (ascii ':') := by
    cases written : zone.elim [] IsoZone.text with
    | nil => simp [digit, colon]
    | cons head tail =>
      rw [written] at zoneHead
      exact ⟨zoneHead.1, zoneHead.2.2.2⟩
  have fractionSkipped : skipIsoFraction
    (fraction.elim [] IsoFraction.text ++ (zone.elim [] IsoZone.text ++ mark :: rest)) =
      zone.elim [] IsoZone.text ++ mark :: rest := by
    cases fraction with
    | some fraction => exact skipIsoFraction_text fraction behindFraction.1
    | none =>
      -- Without a fraction, the zone or the bracket must not look like one.
      have noMark : (zone.elim [] IsoZone.text ++ mark :: rest).head? ≠ some (ascii '.') ∧
          (zone.elim [] IsoZone.text ++ mark :: rest).head? ≠ some (ascii ',') := by
        cases written : zone.elim [] IsoZone.text with
        | nil =>
          have bracket : mark = ascii ']' := by
            rcases ends with bracket | ⟨-, unfinished⟩
            · exact bracket
            · cases zone with
              | none => exact absurd ⟨rfl, rfl⟩ unfinished
              | some zone => cases zone <;> cases written
          rw [bracket]
          simp [ascii]
        | cons head tail =>
          rw [written] at zoneHead
          exact ⟨zoneHead.2.1, zoneHead.2.2.1⟩
      rw [Option.elim_none, List.nil_append, skipIsoFraction, if_neg (not_or.mpr noMark)]
  have behindClock : (fraction.elim [] IsoFraction.text ++
    (zone.elim [] IsoZone.text ++ mark :: rest)).head? ≠
      some (ascii ':') := by
    cases fraction with
    | none => exact behindFraction.2
    | some fraction =>
      obtain ⟨_, _, rfl | rfl, _⟩ := fraction <;> simp [IsoFraction.text, ascii]
  obtain ⟨shape, seconds⟩ := @hasIsoClockShape_text
    (fraction.elim [] IsoFraction.text ++ (zone.elim [] IsoZone.text ++ mark :: rest)) clock
  -- Each part is skipped up to the next one, and the mark is left.
  have secondsSkipped := skipIsoSeconds_text clock behindClock
  rw [IsoTime.text, skipIsoTime, if_pos (by simpa using separated)]
  simp only [List.cons_append, List.drop_succ_cons, List.drop_zero, List.append_assoc, shape,
    if_true, seconds,
    secondsSkipped, fractionSkipped, zoneSkipped]

/-- Behind a clock, the first of two dots is taken for the mark of a fraction. -/
theorem skipIsoTime_clock (time : IsoTime) (bare : time.fraction = none ∧ time.zone = none) :
    skipIsoTime (time.text ++ ascii '.' :: ascii '.' :: rest) = ascii '.' :: rest := by
  obtain ⟨separator, clock, fraction, zone, separator_ok, endOfDay⟩ := time
  obtain ⟨rfl, rfl⟩ : fraction = none ∧ zone = none := bare
  have separated : separator = ascii 'T' ∨ separator = ascii ' ' := separator_ok
  obtain ⟨shape, seconds⟩ := @hasIsoClockShape_text (ascii '.' :: ascii '.' :: rest) clock
  have secondsSkipped := @skipIsoSeconds_text (ascii '.' :: ascii '.' :: rest) clock
    (by simp [ascii])
  -- The clock is skipped, and the dot behind it opens a fraction without digits.
  rw [IsoTime.text, skipIsoTime, if_pos (by simpa using separated)]
  simp only [List.cons_append, List.drop_succ_cons, List.drop_zero, Option.elim_none,
    List.append_nil,
    shape, if_true, seconds, secondsSkipped]
  rfl

/-- A literal is one token, up to a bracket behind it, or to a dot when it does not end at
its clock. -/
theorem tryLexIsoTimestamp_text (literal : IsoLiteral) {mark : Byte}
    (ends : mark = ascii ']' ∨ (mark = ascii '.' ∧ ¬literal.EndsAtClock)) :
    tryLexIsoTimestamp (literal.text ++ mark :: rest) = some (mark :: rest) := by
  obtain ⟨shape, behindDate⟩ := @hasIsoDateShape_text (mark :: rest) literal
  -- Neither mark goes on with the literal.
  have noBleeding : bleeds (mark :: rest) = false := by
    rcases ends with rfl | ⟨rfl, -⟩ <;> rfl
  have timeSkipped : skipIsoTime (literal.time.elim [] IsoTime.text ++ mark :: rest) =
      mark :: rest := by
    cases hasTime : literal.time with
    | none => rcases ends with rfl | ⟨rfl, -⟩ <;> rfl
    | some time =>
      exact skipIsoTime_text time (ends.imp_right (And.imp_right fun other bare =>
        other ⟨time, hasTime, bare⟩))
  simp only [tryLexIsoTimestamp, shape, if_true, behindDate, timeSkipped, noBleeding,
    Bool.false_eq_true, if_false]

/-- A literal that ends at its clock takes the first of two dots with it. -/
theorem tryLexIsoTimestamp_clock (literal : IsoLiteral) (clock : literal.EndsAtClock) :
    tryLexIsoTimestamp (literal.text ++ ascii '.' :: ascii '.' :: rest) = some
      (ascii '.' :: rest) := by
  obtain ⟨time, hasTime, bare⟩ := clock
  -- The clock has no seconds and no zone, so the scan stops at the dots.
  obtain ⟨shape, behindDate⟩ := @hasIsoDateShape_text (ascii '.' :: ascii '.' :: rest) literal
  have noBleeding : bleeds (ascii '.' :: rest) = false := rfl
  rw [hasTime, Option.elim_some] at behindDate
  simp only [tryLexIsoTimestamp, shape, if_true, behindDate, skipIsoTime_clock time bare,
    noBleeding, Bool.false_eq_true,
    if_false]

/-- A literal starts with a digit. -/
theorem head_literal (literal : IsoLiteral) :
    ∃ head tail, literal.text = head :: tail ∧ isDecimalDigit head = true := by
  obtain ⟨first, second, third, fourth, year, digits⟩ := four_digits literal.year_ok
  exact ⟨first, _, by rw [IsoLiteral.text, year]; rfl, digits first (by simp)⟩

/-- The token of a literal, up to a bracket behind it, or to a dot when it does not end at
its clock. -/
theorem next_literal (size : Nat) (literal : IsoLiteral) {mark : Byte}
    (ends : mark = ascii ']' ∨ (mark = ascii '.' ∧ ¬literal.EndsAtClock)) :
    ∃ offset, Lexer.next ⟨size, literal.text ++ mark :: rest⟩ =
      .ok ({ kind := .ident, text := literal.text, offset }, ⟨size, mark :: rest⟩) := by
  obtain ⟨head, tail, written, digit⟩ := head_literal literal
  have lexed := @tryLexIsoTimestamp_text rest literal mark ends
  have length : (literal.text ++ mark :: rest).length - (mark :: rest).length =
      literal.text.length := by
    rw [List.length_append]
    omega
  -- The first digit sends the lexer to the timestamps.
  have token : Lexer.next ⟨size, literal.text ++ mark :: rest⟩ = Lexer.lexDigits ⟨size,
      literal.text ++ mark :: rest⟩ := by
    rw [written, List.cons_append]
    exact Lexer.next_digit digit
  refine ⟨Lexer.position ⟨size, literal.text ++ mark :: rest⟩, ?_⟩
  rw [token, Lexer.lexDigits, lexed]
  simp only [Lexer.textToken, length, List.take_left, Lexer.atRest]

/-- Behind a literal that ends at its clock, one dot is left, which starts no token. -/
theorem next_clock (size : Nat) (literal : IsoLiteral) (clock : literal.EndsAtClock) :
    ∃ token, Lexer.next ⟨size, literal.text ++ ascii '.' :: ascii '.' :: rest⟩ = .ok
      (token, ⟨size, ascii '.' :: rest⟩) ∧
      token.kind = .ident := by
  obtain ⟨head, tail, written, digit⟩ := head_literal literal
  have lexed := @tryLexIsoTimestamp_clock rest literal clock
  -- A literal starts with a digit.
  have token : Lexer.next ⟨size, literal.text ++ ascii '.' :: ascii '.' :: rest⟩ =
      Lexer.lexDigits ⟨size, literal.text ++ ascii '.' :: ascii '.' :: rest⟩ := by
    rw [written, List.cons_append]
    exact Lexer.next_digit digit
  rw [token, Lexer.lexDigits, lexed]
  exact ⟨_, rfl, rfl⟩

end Timestamps

end Loglib.Query
