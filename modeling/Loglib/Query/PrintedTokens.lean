import Loglib.Query.IsoRoundTrip
import Loglib.Query.NormalTrees
import Loglib.Query.QueryTotal

/-! The tokens that printed queries consist of, each one read as it was printed. -/

namespace Loglib.Query

/-- No token goes on with what is behind it: this starts with no byte of an identifier, or
with two dots. -/
def Stops (rest : Bytes) : Prop :=
  rest.head?.any isIdentChar = false ∨ ∃ more, rest = ascii '.' :: ascii '.' :: more

section Numbers

/-- A number as it is printed. -/
structure NumberLiteral where
  negative : Bool
  digits : Bytes
  fraction : Option Bytes
  exponent : Option (Bool × Bytes)
  digits_ok : digits ≠ [] ∧ digits.all isDecimalDigit = true
  fraction_ok : ∀ decimals ∈ fraction, decimals ≠ [] ∧ decimals.all isDecimalDigit = true
  exponent_ok : ∀ signed ∈ exponent, signed.2 ≠ [] ∧ signed.2.all isDecimalDigit = true

namespace NumberLiteral

variable (literal : NumberLiteral)

/-- The exponent, with its mark and its sign. -/
def exponentText : Bytes :=
  literal.exponent.elim [] fun signed => ascii 'e' :: signMark signed.1 :: signed.2

/-- What is behind the digits. -/
def behindDigits : Bytes :=
  (literal.fraction.elim [] fun decimals => ascii '.' :: decimals) ++ literal.exponentText

/-- The literal as it is written. -/
def text : Bytes := (if literal.negative then [ascii '-']
    else []) ++ (literal.digits ++ literal.behindDigits)

end NumberLiteral

variable {rest : Bytes}

/-- Behind a token is no digit, no dash and no exponent. -/
theorem Stops.head (stops : Stops rest) :
    rest.head?.any isDecimalDigit = false ∧ rest.head? ≠ some (ascii '-') ∧ rest.head? ≠ some
      (ascii 'e') ∧
      rest.head? ≠ some (ascii 'E') ∧
        ¬(rest.head? = some (ascii '.') ∧ rest[1]? ≠ some (ascii '.')) := by
  rcases stops with other | ⟨more, rfl⟩
  · cases rest with
    | nil => simp
    | cons head tail =>
      -- All of these are bytes of identifiers.
      have all : ∀ byte : Byte, isIdentChar byte = false →
          isDecimalDigit byte = false ∧ byte ≠ ascii '-' ∧ byte ≠ ascii 'e' ∧ byte ≠ ascii 'E' ∧
            byte ≠ ascii '.' := by
        exact forall_byte (by decide +kernel)
      have noByte := all head (by simpa using other)
      simp [noByte]
  · refine ⟨rfl, ?_, ?_, ?_, ?_⟩ <;> simp [ascii]

/-- What has a digit in front has no sign in front. -/
theorem skipSign_digit {digits : Bytes} (some_ : digits ≠ [])
    (all : digits.all isDecimalDigit = true) (rest : Bytes) :
    skipSign (digits ++ rest) = digits ++ rest ∧
      (digits ++ rest).head?.any isDecimalDigit = true := by
  -- A digit is no sign.
  cases digits with
  | nil => exact absurd rfl some_
  | cons head tail =>
    have digit : isDecimalDigit head = true := (Bool.and_eq_true_iff.mp all).1
    have noSign : ∀ byte : Byte, isDecimalDigit byte = true → byte ≠ ascii '+' ∧ byte ≠ ascii '-' :=
      forall_byte (by decide +kernel)
    have other := noSign head digit
    simp [skipSign, other, digit]

namespace NumberLiteral

variable (literal : NumberLiteral)

/-- The exponent is skipped, and what is behind the literal is left. -/
theorem skip_exponent (stops : Stops rest) :
    let behind := literal.exponentText ++ rest
    behind.head?.any isDecimalDigit = false ∧ behind.head? ≠ some (ascii '-') ∧
      ¬(behind.head? = some (ascii '.') ∧ behind[1]? ≠ some (ascii '.')) ∧
      (if behind.head? = some (ascii 'e') ∨ behind.head? = some (ascii 'E') then
        let digits := skipSign (behind.drop 1)
        if digits.head?.any isDecimalDigit then .ok (digits.dropWhile isDecimalDigit)
          else .error behind
      else .ok behind) = (.ok rest : Except Bytes Bytes) := by
  obtain ⟨noDigit, noDash, noMark, noCapital, noDot⟩ := stops.head
  -- Without an exponent the rest follows at once, and it is none of the marks.
  cases found : literal.exponent with
  | none =>
    rw [exponentText, found]
    simp only [Option.elim_none, List.nil_append, noMark, noCapital, or_false, if_false]
    exact ⟨noDigit, noDash, noDot, trivial⟩
  | some signed =>
    obtain ⟨some_, all⟩ := literal.exponent_ok signed found
    obtain ⟨-, digit⟩ := skipSign_digit some_ all rest
    -- The sign is skipped, and the digits run up to the rest.
    have sign : skipSign (signMark signed.1 :: (signed.2 ++ rest)) = signed.2 ++ rest := by
      cases signed.1 <;> rfl
    rw [exponentText, found]
    simp only [Option.elim_some, List.cons_append, List.head?_cons, true_or, if_true,
      List.drop_succ_cons, List.drop_zero,
      sign, digit, dropWhile_of_stops all noDigit]
    exact ⟨rfl, by decide, by simp [ascii], trivial⟩

/-- What is behind the digits is no digit and no dash, and is skipped with the exponent. -/
theorem skip_behindDigits (stops : Stops rest) :
    let behind := literal.behindDigits ++ rest
    behind.head?.any isDecimalDigit = false ∧ behind.head? ≠ some (ascii '-') ∧
      skipDecimalPart behind = literal.exponentText ++ rest := by
  obtain ⟨noDigit, noDash, noDot, -⟩ := literal.skip_exponent stops
  cases found : literal.fraction with
  | none =>
    rw [behindDigits, found]
    simp only [Option.elim_none, List.nil_append]
    exact ⟨noDigit, noDash, by rw [skipDecimalPart, if_neg noDot]⟩
  | some decimals =>
    obtain ⟨some_, all⟩ := literal.fraction_ok decimals found
    rw [behindDigits, found]
    simp only [Option.elim_some, List.cons_append, List.append_assoc]
    refine ⟨rfl, by simp [ascii], ?_⟩
    -- A decimal is behind the dot, and not another dot.
    have digit : (decimals ++ (literal.exponentText ++ rest)).head? ≠ some (ascii '.') :=
      fun dot => by
      have found := (skipSign_digit some_ all (literal.exponentText ++ rest)).2
      rw [dot] at found
      exact absurd found (by decide)
    have second : (ascii '.' :: (decimals ++ (literal.exponentText ++ rest)))[1]? ≠
        some (ascii '.') := by
      rw [List.getElem?_cons_succ, ← List.head?_eq_getElem?]
      exact digit
    rw [skipDecimalPart, if_pos ⟨rfl, second⟩, List.drop_succ_cons, List.drop_zero]
    exact dropWhile_of_stops all noDigit

/-- A literal is skipped whole. -/
theorem skipNumber_text (stops : Stops rest) : skipNumber (literal.text ++ rest) = .ok rest := by
  obtain ⟨some_, all⟩ := literal.digits_ok
  obtain ⟨noDigit, -, decimals⟩ := literal.skip_behindDigits stops
  obtain ⟨-, -, -, exponent⟩ := literal.skip_exponent stops
  -- The parts of the literal are skipped one by one: sign, digits, decimals, exponent.
  have sign : skipSign (literal.text ++ rest) = literal.digits ++
      (literal.behindDigits ++ rest) := by
    rw [text]
    cases literal.negative with
    | true => simp [skipSign]
    | false => simpa using (skipSign_digit some_ all (literal.behindDigits ++ rest)).1
  rw [skipNumber]
  simp only [sign, dropWhile_of_stops all noDigit, decimals]
  exact exponent

/-- A literal is no date. -/
theorem hasIsoDateShape_text (stops : Stops rest) :
    hasIsoDateShape (literal.text ++ rest) = false := by
  obtain ⟨some_, all⟩ := literal.digits_ok
  obtain ⟨noDigit, noDash, -⟩ := literal.skip_behindDigits stops
  by_contra shape
  simp only [Bool.not_eq_false, hasIsoDateShape, Bool.and_eq_true, decide_eq_true_eq,
    beq_iff_eq] at shape
  obtain ⟨⟨⟨⟨⟨long, year⟩, dash⟩, -⟩, -⟩, -⟩ := shape
  -- A date has a dash behind the digits in front, and no literal does.
  have digits : (literal.text ++ rest).dropWhile isDecimalDigit =
      (literal.text ++ rest).drop 4 := by
    have split := List.take_append_drop 4 (literal.text ++ rest)
    have stopped : ((literal.text ++ rest).drop 4).head?.any isDecimalDigit = false := by
      rw [List.head?_drop, dash]
      rfl
    exact (congrArg _ split.symm).trans (dropWhile_of_stops year stopped)
  have first : literal.negative = false := by
    by_contra negative
    rw [Bool.not_eq_false] at negative
    rw [text, negative] at year
    exact absurd year (by simp [isDecimalDigit, ascii])
  have behind : (literal.text ++ rest).dropWhile isDecimalDigit = literal.behindDigits ++ rest := by
    rw [text, first]
    simpa using dropWhile_of_stops all noDigit
  apply noDash
  rw [← behind, digits, List.head?_drop]
  exact dash

/-- No literal is a timestamp. -/
theorem parseIsoTimestamp_text : parseIsoTimestamp literal.text = none := by
  rw [Option.eq_none_iff_forall_ne_some]
  intro value read
  obtain ⟨date, written, -⟩ := (parseIsoTimestamp_eq_some _ _).mp read
  have shape := (@Query.hasIsoDateShape_text [] date).1
  rw [written, literal.hasIsoDateShape_text (.inl rfl)] at shape
  cases shape

end NumberLiteral

end Numbers

section Standing

/-- The parser stands in front of a text: its token is the first one of the text. -/
def Parser.StandsAt (parser : Parser) (size : Nat) (text : Bytes) : Prop :=
  Parser.withNext (Lexer.next ⟨size, text⟩) = .ok parser

/-- The parser stands in front of a text at a token, and another one stands behind the token. -/
structure Parser.TakesTo (parser : Parser) (size : Nat) (text : Bytes) (kind : TokenKind)
    (found : Bytes) (behind : Parser) :
    Prop where
  standsAt : parser.StandsAt size text
  kind : parser.lookahead.kind = kind
  text : parser.lookahead.text = found
  advance : parser.advance = .ok behind

variable {size : Nat} {text rest found : Bytes} {kind : TokenKind} {behind : Parser}

/-- A parser stands in front of each token that the scanner finds. -/
theorem exists_takesTo (read : ∃ offset,
    Lexer.next ⟨size, text⟩ = .ok ({ kind, text := found, offset }, ⟨size, rest⟩))
    (stands : behind.StandsAt size rest) : ∃ parser : Parser,
      parser.TakesTo size text kind found behind := by
  obtain ⟨offset, read⟩ := read
  refine ⟨⟨⟨size, rest⟩, { kind, text := found, offset }⟩, ?_, rfl, rfl, stands⟩
  rw [Parser.StandsAt, read]
  rfl

/-- White space in front of a token is skipped. -/
theorem Parser.TakesTo.space {parser : Parser}
    (takes : parser.TakesTo size text kind found behind) :
    parser.TakesTo size (ascii ' ' :: text) kind found behind :=
  ⟨by rw [Parser.StandsAt, Lexer.next_space]; exact takes.standsAt, takes.kind, takes.text, takes.advance⟩

/-- A token that is not the end leaves less to parse. -/
theorem Parser.TakesTo.remaining_lt {parser : Parser}
    (takes : parser.TakesTo size text kind found behind)
    (visible : kind ≠ .end_) : behind.remaining < parser.remaining :=
  remaining_withNext (Lexer.shortens_next parser.lexer) (takes.kind ▸ visible) takes.advance

/-- A parser stands at a token of one byte. -/
theorem exists_single (ch : Byte) (visible : isSpace ch = false) (plain : ch ≠ quotationMark)
    (single : singleByteTokens.lookup ch = some kind) (stands : behind.StandsAt size rest) :
    ∃ parser : Parser, parser.TakesTo size (ch :: rest) kind [] behind :=
  exists_takesTo ⟨_, Lexer.next_single visible plain single⟩ stands

/-- A parser stands at the two dots. -/
theorem exists_dotDot (stands : behind.StandsAt size rest) :
    ∃ parser : Parser, parser.TakesTo size (ascii '.' :: ascii '.' :: rest) .dotDot [] behind :=
  exists_takesTo ⟨_, Lexer.next_dotDot rest⟩ stands

/-- A parser stands at a comparison with a bound that belongs to the range. -/
theorem exists_bound {ch : Byte}
    (operator : (ch = ascii '>' ∧ kind = .gtEq) ∨ (ch = ascii '<' ∧ kind = .ltEq))
    (stands : behind.StandsAt size rest) :
    ∃ parser : Parser, parser.TakesTo size (ch :: ascii '=' :: rest) kind [] behind := by
  apply exists_takesTo _ stands
  obtain ⟨rfl, rfl⟩ | ⟨rfl, rfl⟩ := operator <;> exact ⟨_, rfl⟩

/-- A parser stands at a keyword. -/
theorem exists_keyword {word : Bytes} (listed : keywords.lookup (word.map foldAscii) = some kind)
    (start : word.head?.any isIdentStart = true) (all : word.all isIdentChar = true)
    (stops : rest.head?.any isIdentChar = false) (stands : behind.StandsAt size rest) :
    ∃ parser : Parser, parser.TakesTo size (word ++ rest) kind word behind := by
  -- A word that is a keyword is read as its token.
  refine exists_takesTo ⟨Lexer.position ⟨size, word ++ rest⟩, ?_⟩ stands
  cases word with
  | nil => cases start
  | cons ch tail =>
    have read := @Lexer.lexIdent_append size (ch :: tail) rest all stops
    rw [listed, Option.getD_some] at read
    rw [List.cons_append, Lexer.next_ident (by simpa using start)]
    exact read

/-- A parser stands at a printed column or value, which is no keyword. -/
theorem exists_formatIdent (value : Bytes) (stops : rest.head?.any isIdentChar = false)
    (stands : behind.StandsAt size rest) :
    ∃ (parser : Parser) (kind : TokenKind), parser.TakesTo size
      (formatIdent value ++ rest) kind value behind ∧
      (kind = .ident ∨ kind = .quoted) := by
  obtain ⟨⟨kind, found, offset⟩, read, rfl, word⟩ := @Lexer.next_formatIdent size rest value stops
  obtain ⟨parser, takes⟩ := exists_takesTo ⟨offset, read⟩ stands
  exact ⟨parser, kind, takes, word⟩

/-- A parser stands at a text between marks, whatever follows. -/
theorem exists_quoteString (value : Bytes) (stands : behind.StandsAt size rest) :
    ∃ parser : Parser, parser.TakesTo size (quoteString value ++ rest) .quoted value behind := by
  refine exists_takesTo ⟨Lexer.position ⟨size, quoteString value ++ rest⟩, ?_⟩ stands
  have visible : isSpace quotationMark = false := rfl
  have ends := untilMark_escapeText value rest
  -- Between the marks, the escapes are undone.
  rw [quoteString, List.cons_append, Lexer.next_cons visible, Lexer.lexFrom, if_pos rfl]
  simp only [Lexer.lexQuoted, List.drop_succ_cons, List.drop_zero, List.append_assoc,
    List.singleton_append, ends,
    unescapeText_escapeText]
  rfl

/-- A parser stands at a printed number. -/
theorem exists_number (literal : NumberLiteral) (stops : Stops rest)
    (stands : behind.StandsAt size rest) :
    ∃ parser : Parser, parser.TakesTo size (literal.text ++ rest) .number literal.text behind := by
  refine exists_takesTo ⟨Lexer.position ⟨size, literal.text ++ rest⟩, ?_⟩ stands
  have length : (literal.text ++ rest).length - rest.length = literal.text.length := by
    rw [List.length_append]
    omega
  have lexed : Lexer.lexDigits ⟨size, literal.text ++ rest⟩ =
      .ok ({ kind := .number, text := literal.text
             offset := Lexer.position ⟨size, literal.text ++ rest⟩ }, ⟨size, rest⟩) := by
    simp only [Lexer.lexDigits, tryLexIsoTimestamp, literal.hasIsoDateShape_text stops,
      Bool.false_eq_true, if_false,
      Lexer.lexNumber, literal.skipNumber_text stops, Lexer.textToken, length, List.take_left,
      Lexer.atRest]
  rw [← lexed]
  obtain ⟨some_, all⟩ := literal.digits_ok
  have digits := (skipSign_digit some_ all (literal.behindDigits ++ rest)).2
  cases negative : literal.negative with
  | false =>
    -- A digit is in front.
    have written : literal.text ++ rest = literal.digits ++ (literal.behindDigits ++ rest) := by
      simp [NumberLiteral.text, negative]
    rw [written]
    cases digitsText : literal.digits ++ (literal.behindDigits ++ rest) with
    | nil =>
      rw [digitsText] at digits
      cases digits
    | cons ch tail =>
      rw [digitsText] at digits
      exact Lexer.next_digit (by simpa using digits)
  | true =>
    -- A dash is in front, and a digit behind it.
    have written : literal.text ++ rest = ascii '-' ::
        (literal.digits ++ (literal.behindDigits ++ rest)) := by
      simp [NumberLiteral.text, negative]
    have visible : isSpace (ascii '-') = false := rfl
    have word : startsWord (ascii '-') = true := by decide
    rw [written, Lexer.next_cons visible, Lexer.lexFrom_word _ word,
      if_pos (.inr ⟨.inr rfl, digits⟩)]

end Standing

section Timestamps

variable {micros : Int64} {size : Nat} {rest : Bytes} {behind : Parser}

/-- What is printed for an instant of a year of four digits: digits, and the marks between them. -/
theorem exists_printedDigits (year : HasFourDigitYear micros) :
    ∃ y m d h min s f : Nat, y < 10 ^ 4 ∧ m < 100 ∧ d < 100 ∧ h < 100 ∧ min < 100 ∧ s < 100 ∧
      formatTimestampMicros micros =
        paddedDecimal 4 y ++ ascii '-' :: paddedDecimal 2 m ++ ascii '-' :: paddedDecimal 2 d ++
          ascii 'T' :: paddedDecimal 2 h ++ ascii ':' :: paddedDecimal 2 min ++ ascii ':' ::
            paddedDecimal 2 s ++
          ascii '.' :: paddedDecimal 6 f ++ [ascii 'Z'] := by
  have printed := hasFourDigitYear_iff.mp year
  obtain ⟨-, date_ok⟩ := @sysDays_civilFromDays (micros.toInt / microsPerSecond / 86400) (by omega)
  obtain ⟨smallMonth, smallDay⟩ := lt_of_isDate date_ok
  rw [formatTimestampMicros_eq]
  dsimp only
  rw [if_neg printed]
  -- Day, hour, minute and second are below a hundred each.
  exact ⟨_, _, _, _, _, _, _, by omega, smallMonth, smallDay, by omega, by omega, by omega, rfl⟩

/-- A printed instant is one token, whatever ends it. -/
theorem tryLexIsoTimestamp_printed (year : HasFourDigitYear micros) (stops : Stops rest) :
    tryLexIsoTimestamp (formatTimestampMicros micros ++ rest) = some rest := by
  obtain ⟨y, m, d, h, min, s, f, y_lt, m_lt, d_lt, h_lt, min_lt, s_lt, written⟩ :=
    exists_printedDigits year
  obtain ⟨y₁, y₂, y₃, y₄, yText, yDigits⟩ := four_digits y_lt
  obtain ⟨m₁, m₂, mText, mDigits⟩ := two_digits m_lt
  obtain ⟨d₁, d₂, dText, dDigits⟩ := two_digits d_lt
  obtain ⟨h₁, h₂, hText, hDigits⟩ := two_digits h_lt
  obtain ⟨min₁, min₂, minText, minDigits⟩ := two_digits min_lt
  obtain ⟨s₁, s₂, sText, sDigits⟩ := two_digits s_lt
  simp only [List.mem_cons, List.not_mem_nil, or_false, forall_eq_or_imp, forall_eq] at yDigits
  -- The fraction ends at the mark of UTC, and what is behind this does not go on with the token.
  have fraction : (paddedDecimal 6 f ++ ascii 'Z' :: rest).dropWhile isDecimalDigit =
      ascii 'Z' :: rest :=
    dropWhile_of_stops (List.all_eq_true.mpr fun _ member =>
      isDecimalDigit_of_mem_paddedDecimal member) rfl
  have noBleeding : bleeds rest = false := by
    obtain other | ⟨more, rfl⟩ := stops
    · cases rest with
      | nil => rfl
      | cons head tail =>
        have noIdent : isIdentChar head = false := by simpa using other
        simp [bleeds, noIdent]
    · rfl
  have zone : skipIsoZone (ascii 'Z' :: rest) = rest := rfl
  rw [written, yText, mText, dText, hText, minText, sText]
  simp [tryLexIsoTimestamp, hasIsoDateShape, yDigits, mDigits, dDigits, skipIsoTime,
    hasIsoClockShape, hDigits, minDigits,
    skipIsoSeconds, sDigits, skipIsoFraction, fraction, zone, noBleeding]

/-- A parser stands at a printed instant. -/
theorem exists_timestamp (year : HasFourDigitYear micros) (stops : Stops rest)
    (stands : behind.StandsAt size rest) :
    ∃ parser : Parser, parser.TakesTo size (formatTimestampMicros micros ++ rest) .ident
      (formatTimestampMicros micros)
      behind := by
  refine exists_takesTo ⟨Lexer.position ⟨size, formatTimestampMicros micros ++ rest⟩, ?_⟩ stands
  have lexed := tryLexIsoTimestamp_printed year stops
  have length : (formatTimestampMicros micros ++ rest).length - rest.length =
      (formatTimestampMicros micros).length := by
    rw [List.length_append]
    omega
  -- The first digit sends the lexer to the timestamps.
  obtain ⟨literal, written, -⟩ := exists_printed year
  obtain ⟨head, tail, split, digit⟩ := head_literal literal
  have token : Lexer.next ⟨size, formatTimestampMicros micros ++ rest⟩ =
      Lexer.lexDigits ⟨size, formatTimestampMicros micros ++ rest⟩ := by
    rw [← written, split, List.cons_append]
    exact Lexer.next_digit digit
  rw [token, Lexer.lexDigits, lexed]
  simp only [Lexer.textToken, length, List.take_left, Lexer.atRest]

end Timestamps

section Regexes

/-- Every backslash of a regular expression has a byte behind it, which is no slash. -/
def keepsEscapes : Bytes → Bool
  | [] => true
  | [ch] => ch ≠ escapeMark
  | ch :: second :: rest =>
    if ch = escapeMark then second ≠ ascii '/' && keepsEscapes rest
    else keepsEscapes (second :: rest)

variable {size : Nat} {rest : Bytes} {behind : Parser}

/-- A byte that is neither a backslash nor a slash belongs to the body. -/
theorem regexBody_cons {ch : Byte} (plain : ch ≠ escapeMark ∧ ch ≠ ascii '/') (body text : Bytes) :
    Lexer.regexBody body (ch :: text) = Lexer.regexBody (body ++ [ch]) text := by
  cases text <;> simp [Lexer.regexBody, plain.1, plain.2]

/-- A body is read as it was printed, when its backslashes have a byte behind them. -/
theorem regexBody_escapeSlashes {value : Bytes} (keeps : keepsEscapes value = true)
    (body rest : Bytes) :
    Lexer.regexBody body (escapeSlashes value ++ ascii '/' :: rest) = some
      (body ++ value, rest) := by
  have slash : ascii '/' ≠ escapeMark := by decide
  have ends : ∀ body : Bytes, Lexer.regexBody body (ascii '/' :: rest) = some (body, rest) :=
    fun body => by
    cases rest <;> simp [Lexer.regexBody, slash]
  -- A slash is printed behind a backslash, which is not part of the body.
  have escaped : ∀ (body text : Bytes), Lexer.regexBody body (escapeMark :: ascii '/' :: text) =
      Lexer.regexBody (body ++ [ascii '/']) text := fun body text => by
    simp [Lexer.regexBody]
  fun_induction keepsEscapes value generalizing body with
  | case1 => simp [escapeSlashes, ends]
  | case2 ch =>
    simp only [ne_eq, decide_eq_true_eq] at keeps
    by_cases isSlash : ch = ascii '/'
    · subst isSlash
      simp [escapeSlashes, escaped, ends]
    · simp [escapeSlashes, isSlash, regexBody_cons ⟨keeps, isSlash⟩, ends]
  | case3 second rest' ih =>
    simp only [ne_eq, Bool.and_eq_true, decide_eq_true_eq] at keeps
    obtain ⟨other, keeps⟩ := keeps
    have paired := ih keeps (body ++ [escapeMark, second])
    -- The byte behind a backslash is printed as it is, and belongs to the body with it.
    unfold escapeSlashes at paired ⊢
    simp only [List.flatMap_cons, if_neg slash.symm, if_neg other, List.cons_append,
      List.nil_append, Lexer.regexBody, if_true]
    rw [paired]
    simp
  | case4 ch second rest' plain ih =>
    have single := ih keeps (body ++ [ch])
    unfold escapeSlashes at single ⊢
    rw [List.flatMap_cons]
    by_cases isSlash : ch = ascii '/'
    · subst isSlash
      simp only [if_true, List.cons_append, List.nil_append, escaped]
      rw [single]
      simp
    · simp only [if_neg isSlash, List.cons_append, List.nil_append, regexBody_cons ⟨plain, isSlash⟩]
      rw [single]
      simp

/-- A parser stands at a tilde, behind which a printed regular expression is one token. -/
theorem exists_regex {value : Bytes} (keeps : keepsEscapes value = true)
    (stands : behind.StandsAt size rest) :
    ∃ op body : Parser, op.StandsAt size
      (ascii '~' :: ascii '/' :: (escapeSlashes value ++ ascii '/' :: rest)) ∧
      op.lookahead.kind = .tilde ∧ op.advanceRegex = .ok body ∧ body.lookahead.kind = .regex ∧
        body.lookahead.text = value ∧
      body.advance = .ok behind := by
  have visible : isSpace (ascii '/') = false := rfl
  have read := regexBody_escapeSlashes keeps [] rest
  rw [List.nil_append] at read
  let written := ascii '/' :: (escapeSlashes value ++ ascii '/' :: rest)
  let body : Parser := ⟨⟨size, rest⟩, ⟨.regex, value, Lexer.position ⟨size, written⟩⟩⟩
  refine ⟨⟨⟨size, written⟩, ⟨.tilde, [], Lexer.position ⟨size, ascii '~' :: written⟩⟩⟩, body, ?_,
    rfl, ?_, rfl, rfl, stands⟩
  · rw [Parser.StandsAt, Lexer.next_single rfl (by decide) rfl]
    rfl
  · -- The scanner behind the tilde is asked for a regular expression.
    simp only [Parser.advanceRegex, Lexer.nextRegex, Lexer.skipWhitespace, Lexer.atRest, written,
      List.dropWhile_cons, visible,
      Bool.false_eq_true, if_false, List.head?_cons, if_true, List.drop_succ_cons,
      List.drop_zero, read]
    rfl

end Regexes

end Loglib.Query
