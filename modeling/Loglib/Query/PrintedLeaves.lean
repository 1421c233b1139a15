import Loglib.Query.PrintedTokens

/-! The leaves of printed queries, each one read as the rule that was printed. -/

namespace Loglib.Query

section Conditions

variable (formatNumber : Double → Bytes) (strtod : Bytes → Option Double)

/-- A bound is printed as a literal, and read from it. -/
def ReadsBack (value : Double) : Prop :=
  ∃ literal : NumberLiteral, literal.text = formatNumber value ∧ strtod literal.text = some value

/-- The rule of a leaf has one column, and a payload of the kind that its type's literals spell. -/
def LeafShape (rule : LeafRule) : Prop :=
  (∃ column, rule.columnKeys = [column]) ∧
    match rule.type with
    | .string =>
      ∃ matchType value, rule.matchType = some matchType ∧ rule.filterString = some value ∧
        (matchType = .regularExpression → keepsEscapes value = true)
    | .number =>
      ¬(rule.filterMinValue = none ∧ rule.filterMaxValue = none) ∧
        ∀ first ∈ rule.filterMinValue, ∀ second ∈ rule.filterMaxValue, second.lt first = false
    | .time =>
      ¬(rule.filterBegin = none ∧ rule.filterEnd = none) ∧ ∀ first ∈ rule.filterBegin,
        ∀ second ∈ rule.filterEnd, first ≤ second
    | .boolean => spells rule.filterValues "true" = true ∨ spells rule.filterValues "false" = true
    | .enumeration =>
      rule.filterValues ≠ [] ∧
        -- A single name has the type that its text has, so it must read as neither time nor number.
        ∀ only, rule.filterValues = [only] →
          parseIsoTimestamp only = none ∧ parseDouble strtod only = none

/-- The bounds of a leaf survive their texts: the numbers are read back, and the times have years of
four digits. -/
structure BoundsSurvive (rule : LeafRule) : Prop where
  numbers : rule.type = .number →
    (∀ bound ∈ rule.filterMinValue, ReadsBack formatNumber strtod bound) ∧
      ∀ bound ∈ rule.filterMaxValue, ReadsBack formatNumber strtod bound
  times : rule.type = .time →
    (∀ bound ∈ rule.filterBegin, HasFourDigitYear bound) ∧ ∀ bound ∈ rule.filterEnd,
      HasFourDigitYear bound

/-- The rule of a leaf that the grammar has a text for. -/
def PrintableLeaf (rule : LeafRule) : Prop :=
  LeafShape strtod rule ∧ BoundsSurvive formatNumber strtod rule

end Conditions

section Bounds

variable {strtod : Bytes → Option Double}

/-- The bytes of a number literal. -/
def isNumberByte (byte : Byte) : Bool :=
  isDecimalDigit byte || byte = ascii '-' || byte = ascii '+' || byte = ascii '.' ||
    byte = ascii 'e'

namespace NumberLiteral

variable (literal : NumberLiteral)

/-- A literal has no other bytes. -/
theorem all_text : literal.text.all isNumberByte = true := by
  -- Digits, mark, exponent and sign are bytes of a number.
  have digits : ∀ {text : Bytes}, text.all isDecimalDigit = true → text.all isNumberByte = true :=
    fun all =>
    List.all_eq_true.mpr fun byte member => by
      simp [isNumberByte, List.all_eq_true.mp all byte member]
  have fraction : (literal.fraction.elim [] fun decimals =>
      ascii '.' :: decimals).all isNumberByte = true := by
    cases found : literal.fraction with
    | none => rfl
    | some decimals =>
      rw [Option.elim_some, List.all_cons, digits (literal.fraction_ok decimals found).2]
      rfl
  have exponent : literal.exponentText.all isNumberByte = true := by
    rw [exponentText]
    cases found : literal.exponent with
    | none => rfl
    | some signed =>
      rw [Option.elim_some, List.all_cons, List.all_cons,
        digits (literal.exponent_ok signed found).2]
      cases signed.1 <;> rfl
  have sign : (if literal.negative then [ascii '-'] else []).all isNumberByte = true := by
    cases literal.negative <;> rfl
  simp only [text, behindDigits, List.all_append, sign, digits literal.digits_ok.2, fraction,
    exponent, Bool.and_self]

/-- None of the guards in front of `std::strtod` rejects a literal. -/
theorem parseDouble_text : parseDouble strtod literal.text = strtod literal.text := by
  -- None of the ways in which a text is refused applies to a literal.
  have all := List.all_eq_true.mp literal.all_text
  obtain ⟨some_, -⟩ := literal.digits_ok
  have nonempty : literal.text ≠ [] := by
    simp [text, some_]
  have noSpace : literal.text.head?.any isSpace = false := by
    cases written : literal.text with
    | nil => rfl
    | cons head tail =>
      have visible : ∀ byte : Byte, isNumberByte byte = true → isSpace byte = false :=
        forall_byte (by decide +kernel)
      have other := visible head (all head (by simp [written]))
      simpa using other
  -- A second byte that is an `x` would be no byte of a number.
  have noHex : ∀ mark : Byte, isNumberByte mark = false → literal.text[1]? ≠ some mark :=
    fun mark other found => by
    rw [all mark (List.mem_of_getElem? found)] at other
    cases other
  have noZero : literal.text.contains 0 = false := by
    by_contra zero
    have found := all 0 (by simpa using zero)
    exact absurd found (by decide)
  simp only [parseDouble, nonempty, noSpace, noHex (ascii 'x') (by decide),
    noHex (ascii 'X') (by decide), noZero, or_self,
    and_false, Bool.false_eq_true, if_false]

end NumberLiteral

/-- A text is read as a bound, whatever token it is, and is one token up to what ends it. -/
structure ReadsBound (strtod : Bytes → Option Double) (text : Bytes)
    (bound : Parser.RangeBound) : Prop where
  classify : ∀ token : Token, token.text = text → Parser.classify strtod token = some bound
  token : ∀ {size : Nat} {rest : Bytes} {behind : Parser}, Stops rest → behind.StandsAt size rest →
    ∃ (parser : Parser) (kind : TokenKind), parser.TakesTo size (text ++ rest) kind text behind ∧
      (kind = .number ∨ kind = .ident)

/-- A number that survives its text is a bound. -/
theorem readsBound_number {formatNumber : Double → Bytes} {value : Double}
    (readsBack : ReadsBack formatNumber strtod value) :
    ReadsBound strtod (formatNumber value) (.number value) := by
  -- The printed number is a literal of the grammar, and no timestamp.
  obtain ⟨literal, written, read⟩ := readsBack
  rw [← written]
  refine ⟨fun token same => ?_, fun stops stands => ?_⟩
  · simp only [Parser.classify, same, literal.parseIsoTimestamp_text,
      literal.parseDouble_text, read]
  · obtain ⟨parser, takes⟩ := exists_number literal stops stands
    exact ⟨parser, .number, takes, .inl rfl⟩

/-- An instant of a year of four digits is a bound. -/
theorem readsBound_time {value : Int64} (year : HasFourDigitYear value) :
    ReadsBound strtod (formatTimestampMicros value) (.time value) := by
  have read := (parseIsoTimestamp_eq_some _ _).mpr (exists_printed year)
  refine ⟨fun token same => ?_, fun stops stands => ?_⟩
  · simp only [Parser.classify, same, read]
  · obtain ⟨parser, takes⟩ := exists_timestamp year stops stands
    exact ⟨parser, .ident, takes, .inr rfl⟩

end Bounds

section Payloads

variable {strtod : Bytes → Option Double} {size : Nat} {rest : Bytes} {behind : Parser}

/-- A text behind a column is read to the end of the leaf, whose rule it gives. -/
structure Finishes (strtod : Bytes → Option Double) (payload : Bytes)
    (rule : Bytes → LeafRule) : Prop where
  stops : ∀ rest : Bytes, (payload ++ rest).head?.any isIdentChar = false
  reads : ∀ {size : Nat} {rest : Bytes} {behind : Parser}, rest.head?.any isIdentChar = false →
    behind.StandsAt size rest →
    ∃ op : Parser, op.StandsAt size (payload ++ rest) ∧
      ∀ (parser : Parser) (fuel : Nat), parser.lookahead.kind = .ident ∨
        parser.lookahead.kind = .quoted →
        parser.advance = .ok op → op.remaining < fuel →
          parser.parseLeaf strtod fuel = some (.ok (.leaf (rule parser.lookahead.text), behind))

/-- A value is one of the tokens that leaves end with. -/
theorem Parser.TakesTo.leafBehind {parser : Parser} {text found : Bytes} {kind : TokenKind}
    (takes : parser.TakesTo size text kind found behind) (rule : LeafRule) :
    parser.leafBehind rule = .ok (.leaf rule, behind) := by
  rw [Parser.leafBehind, takes.advance]
  rfl

/-- A text, for each of the ways to match it. -/
theorem finishes_appendString (value : Bytes) (matchType : LeafRuleMatch)
    (keeps : matchType = .regularExpression → keepsEscapes value = true) :
    Finishes strtod (appendString value matchType) fun column =>
      { leafRule column .string with matchType := some matchType, filterString := some value } := by
  cases matchType with
  | contains =>
    refine ⟨fun rest => rfl, fun stops stands => ?_⟩
    obtain ⟨word, kind, wordTakes, wordKind⟩ := exists_formatIdent value stops stands
    obtain ⟨op, opTakes⟩ := exists_single (ascii ':') rfl (by decide) rfl wordTakes.standsAt
    refine ⟨op, opTakes.standsAt, fun parser fuel column toOp enough => ?_⟩
    -- Whichever of the two tokens the word is, it is a value.
    have isValue : word.isValue = true := by
      rw [Parser.isValue, Parser.isBound, wordTakes.kind]
      obtain rfl | rfl := wordKind <;> rfl
    simp only [Parser.parseLeaf, column, if_true, toOp, afterToken, opTakes.kind, opTakes.advance,
      Parser.finishStringLeaf,
      isValue, wordTakes.text, wordTakes.leafBehind]
  | exactly =>
    refine ⟨fun rest => rfl, fun stops stands => ?_⟩
    obtain ⟨text, textTakes⟩ := exists_quoteString value stands
    obtain ⟨op, opTakes⟩ := exists_single (ascii '=') rfl (by decide) rfl textTakes.standsAt
    refine ⟨op, opTakes.standsAt, fun parser fuel column toOp enough => ?_⟩
    simp only [Parser.parseLeaf, column, if_true, toOp, afterToken, opTakes.kind, opTakes.advance,
      Parser.finishEqLeaf,
      textTakes.kind, textTakes.text, textTakes.leafBehind]
  | wildcard =>
    refine ⟨fun rest => rfl, fun stops stands => ?_⟩
    obtain ⟨text, textTakes⟩ := exists_quoteString value stands
    obtain ⟨op, opTakes⟩ := exists_single (ascii '%') rfl (by decide) rfl textTakes.standsAt
    refine ⟨op, opTakes.standsAt, fun parser fuel column toOp enough => ?_⟩
    simp only [Parser.parseLeaf, column, if_true, toOp, afterToken, opTakes.kind, opTakes.advance,
      Parser.finishWildcardLeaf,
      textTakes.kind, true_or, textTakes.text, textTakes.leafBehind]
  | regularExpression =>
    refine ⟨fun rest => rfl, fun {size rest behind} stops stands => ?_⟩
    obtain ⟨op, body, opStands, opKind, toBody, bodyKind, bodyText, toBehind⟩ :=
      exists_regex (keeps rfl) stands
    have leaf : ∀ rule, body.leafBehind rule = .ok (.leaf rule, behind) := fun rule => by
      rw [Parser.leafBehind, toBehind]
      rfl
    refine ⟨op, by simpa [appendString, bytes] using opStands, fun parser fuel column toOp enough => ?_⟩
    simp only [Parser.parseLeaf, column, if_true, toOp, afterToken, opKind, toBody,
      Parser.finishRegexLeaf, bodyKind, bodyText,
      leaf]

/-- An equation for a number. -/
theorem finishes_equalNumber {formatNumber : Double → Bytes} {value : Double}
    (readsBack : ReadsBack formatNumber strtod value) :
    Finishes strtod (bytes "=" ++ formatNumber value) fun column =>
      { leafRule column .number with
        filterMinValue := some value
        filterMaxValue := some value } := by
  obtain ⟨literal, written, read⟩ := readsBack
  rw [← written]
  -- The sign is a token, and the number behind it another.
  refine ⟨fun rest => rfl, fun stops stands => ?_⟩
  obtain ⟨number, numberTakes⟩ := exists_number literal (.inl stops) stands
  obtain ⟨op, opTakes⟩ := exists_single (ascii '=') rfl (by decide) rfl numberTakes.standsAt
  refine ⟨op, opTakes.standsAt, fun parser fuel column toOp enough => ?_⟩
  simp only [Parser.parseLeaf, column, if_true, toOp, afterToken, opTakes.kind, opTakes.advance,
    Parser.finishEqLeaf,
    numberTakes.kind, numberTakes.text, literal.parseDouble_text, read, numberTakes.leafBehind]

/-- An equation for a boolean. -/
theorem finishes_equalBoolean {word : Bytes} {kind : TokenKind}
    (keyword : (word = bytes "true" ∧ kind = .true_) ∨ (word = bytes "false" ∧ kind = .false_)) :
    Finishes strtod (bytes "=" ++ word) fun column =>
      { leafRule column .boolean with filterValues := [word] } := by
  have listed : keywords.lookup (word.map foldAscii) = some kind := by
    obtain ⟨rfl, rfl⟩ | ⟨rfl, rfl⟩ := keyword <;> rfl
  have start : word.head?.any isIdentStart = true := by
    obtain ⟨rfl, -⟩ | ⟨rfl, -⟩ := keyword <;> rfl
  have all : word.all isIdentChar = true := by
    obtain ⟨rfl, -⟩ | ⟨rfl, -⟩ := keyword <;> rfl
  refine ⟨fun rest => rfl, fun stops stands => ?_⟩
  obtain ⟨value, valueTakes⟩ := exists_keyword listed start all stops stands
  obtain ⟨op, opTakes⟩ := exists_single (ascii '=') rfl (by decide) rfl valueTakes.standsAt
  refine ⟨op, opTakes.standsAt, fun parser fuel column toOp enough => ?_⟩
  simp only [Parser.parseLeaf, column, if_true, toOp, afterToken, opTakes.kind, opTakes.advance,
    Parser.finishEqLeaf,
    valueTakes.kind]
  -- Each keyword has a branch of its own.
  obtain ⟨rfl, rfl⟩ | ⟨rfl, rfl⟩ := keyword <;> simp only [valueTakes.leafBehind]

/-- The rule of a comparison with a bound. -/
def compareBound (column : Bytes) (operator : TokenKind) : Parser.RangeBound → LeafRule
  | .time time => Parser.compareTime column operator time
  | .number number => Parser.compareNumber column operator number

/-- A token that is a bound is one of the values that bounds are written as. -/
theorem Parser.TakesTo.isBound {parser : Parser} {text found : Bytes} {kind : TokenKind}
    (takes : parser.TakesTo size text kind found behind) (bound : kind = .number ∨ kind = .ident) :
    parser.isBound = true ∧ parser.isValue = true ∧ parser.lookahead.kind ≠ .dotDot := by
  rw [Parser.isValue, Parser.isBound, takes.kind]
  obtain rfl | rfl := bound <;> exact ⟨rfl, rfl, by decide⟩

/-- A comparison with a bound. -/
theorem finishes_compare {ch : Byte} {kind : TokenKind} {text : Bytes} {bound : Parser.RangeBound}
    (operator : (ch = ascii '>' ∧ kind = .gtEq) ∨ (ch = ascii '<' ∧ kind = .ltEq))
    (reads : ReadsBound strtod text bound) :
    Finishes strtod (ch :: ascii '=' :: text) fun column => compareBound column kind bound := by
  refine ⟨fun rest => ?_, fun {size rest behind} stops stands => ?_⟩
  · obtain ⟨rfl, -⟩ | ⟨rfl, -⟩ := operator <;> rfl
  · obtain ⟨value, valueKind, valueTakes, word⟩ := reads.token (.inl stops) stands
    obtain ⟨op, opTakes⟩ := exists_bound operator valueTakes.standsAt
    refine ⟨op, opTakes.standsAt, fun parser fuel column toOp enough => ?_⟩
    have classified := reads.classify value.lookahead valueTakes.text
    have compared : ∀ column, value.finishCompareLeaf strtod column op.lookahead =
        .ok (.leaf (compareBound column kind bound), behind) := by
      intro column
      simp only [Parser.classify] at classified
      simp only [Parser.finishCompareLeaf, (valueTakes.isBound word).1, if_true, valueTakes.advance,
        bind, Except.bind]
      -- The literal is a time before it is a number, as in a range.
      split at classified
      · rename_i time _ read
        obtain rfl := Option.some.inj classified
        simp only [opTakes.kind, compareBound]
        rfl
      · rename_i number noTime read
        obtain rfl := Option.some.inj classified
        simp only [opTakes.kind, compareBound]
        rfl
      · cases classified
    -- Both operators are comparisons.
    have chosen : parser.parseLeaf strtod fuel =
        some (value.finishCompareLeaf strtod parser.lookahead.text op.lookahead) := by
      simp only [Parser.parseLeaf, column, if_true, toOp, afterToken, opTakes.kind]
      obtain ⟨-, rfl⟩ | ⟨-, rfl⟩ := operator <;> simp only [opTakes.advance]
    rw [chosen, compared]

end Payloads

section Lists

variable {strtod : Bytes → Option Double} {size : Nat} {rest : Bytes} {behind : Parser}

/-- A parser stands at the keyword of a list, behind which are a bracket and what is in the list. -/
theorem exists_in {text : Bytes} {inner : Parser} (stands : inner.StandsAt size text) :
    ∃ op : Parser, op.StandsAt size (bytes " IN [" ++ text) ∧
      ∀ (parser : Parser) (fuel : Nat), parser.lookahead.kind = .ident ∨
        parser.lookahead.kind = .quoted →
        parser.advance = .ok op → op.remaining < fuel →
          ∃ list : Parser, parser.parseLeaf strtod fuel =
            list.finishInLeaf strtod fuel parser.lookahead.text ∧
            list.lookahead.kind = .lBracket ∧ list.advance = .ok inner ∧
              inner.remaining < fuel := by
  -- The word and the bracket are tokens, with a blank between them and the column.
  obtain ⟨list, listTakes⟩ := exists_single (ascii '[') rfl (by decide) rfl stands
  obtain ⟨op, opTakes⟩ := @exists_keyword size _ .kwIn _
    (bytes "IN") rfl rfl rfl rfl listTakes.space.standsAt
  refine ⟨op, opTakes.space.standsAt, fun parser fuel column toOp enough =>
    ⟨list, ?_, listTakes.kind, listTakes.advance, ?_⟩⟩
  · simp only [Parser.parseLeaf, column, if_true, toOp, afterToken, opTakes.kind, opTakes.advance]
  · have shorter := listTakes.remaining_lt (by decide)
    have shorter' := opTakes.remaining_lt (by decide)
    omega

/-- A range with both of its bounds. -/
theorem finishes_range {first second : Bytes} {lower upper : Parser.RangeBound}
    {rule : Bytes → LeafRule}
    (firstReads : ReadsBound strtod first lower) (secondReads : ReadsBound strtod second upper)
    (leaf : ∀ column offset, Parser.rangeLeaf column offset (some lower) (some upper) =
    .ok (rule column)) :
    Finishes strtod (bytes " IN [" ++ (first ++ (bytes ".." ++ (second ++ bytes "]")))) rule := by
  refine ⟨fun rest => rfl, fun {size rest behind} stops stands => ?_⟩
  obtain ⟨closing, closingTakes⟩ := exists_single (ascii ']') rfl (by decide) rfl stands
  obtain ⟨last, lastKind, lastTakes, lastWord⟩ := secondReads.token (.inl rfl) closingTakes.standsAt
  obtain ⟨dots, dotsTakes⟩ := exists_dotDot lastTakes.standsAt
  obtain ⟨inner, innerKind, innerTakes, innerWord⟩ :=
    firstReads.token (.inr ⟨_, rfl⟩) dotsTakes.standsAt
  obtain ⟨op, opStands, entered⟩ := @exists_in strtod _ _ _ innerTakes.standsAt
  refine ⟨op, by simpa [bytes] using opStands, fun parser fuel column toOp enough => ?_⟩
  obtain ⟨list, parsed, bracket, toInner, -⟩ := entered parser fuel column toOp enough
  obtain ⟨-, value, noDots⟩ := innerTakes.isBound innerWord
  -- Both tokens are bounds, and the second one is closed by the bracket.
  have lowerRead : Parser.classifyBound strtod "range lower bound must be a number or ISO timestamp"
    (some inner.lookahead) =
      .ok (some lower) := by
    simp only [Parser.classifyBound, firstReads.classify _ innerTakes.text]
  have upperRead : Parser.classifyBound strtod "range upper bound must be a number or ISO timestamp"
    (some last.lookahead) =
      .ok (some upper) := by
    simp only [Parser.classifyBound, secondReads.classify _ lastTakes.text]
  rw [parsed]
  simp only [Parser.finishInLeaf, bracket, if_true, toInner, afterToken, if_neg noDots, value,
    innerTakes.advance,
    dotsTakes.kind, dotsTakes.advance, Parser.finishRangeUpper, (lastTakes.isBound lastWord).1,
    lastTakes.advance,
    Parser.closeRange, closingTakes.kind, ne_eq, not_true_eq_false, if_false, closingTakes.advance,
    reduceCtorEq, and_self,
    lowerRead, upperRead, leaf, bind, Except.bind]
  rfl

/-- A parser stands at what is behind the first value of a list. -/
theorem exists_values (values : List Bytes) (stands : behind.StandsAt size rest) :
    ∃ parser : Parser, parser.StandsAt size
      (appendValues values ++ rest) ∧ parser.lookahead.kind ≠ .dotDot ∧
      ∀ (column : Bytes) (fuel : Nat) (filterValues : List Bytes), parser.remaining < fuel →
        Parser.listTail strtod column fuel false filterValues parser =
          some (.ok (.leaf (Parser.listLeaf strtod column false (filterValues ++ values)),
            behind)) := by
  induction values with
  | nil =>
    obtain ⟨closing, closingTakes⟩ := exists_single (ascii ']') rfl (by decide) rfl stands
    refine ⟨closing, closingTakes.standsAt,
      by rw [closingTakes.kind]; decide, fun column fuel filterValues enough => ?_⟩
    cases fuel with
    | zero => omega
    | succ fuel =>
      simp only [Parser.listTail, closingTakes.kind, reduceCtorEq, if_false, if_true,
        closingTakes.leafBehind, List.append_nil]
  | cons value values ih =>
    obtain ⟨tail, tailStands, -, tailRead⟩ := ih
    have stops : (appendValues values ++ rest).head?.any isIdentChar = false := by
      cases values <;> rfl
    obtain ⟨word, kind, wordTakes, wordKind⟩ := exists_formatIdent value stops tailStands
    obtain ⟨comma, commaTakes⟩ :=
      exists_single (ascii ',') rfl (by decide) rfl wordTakes.space.standsAt
    refine ⟨comma, by simpa [appendValues, bytes] using commaTakes.standsAt, by rw [commaTakes.kind]; decide,
      fun column fuel filterValues enough => ?_⟩
    -- The values are neither keywords nor numbers when they are printed.
    have isValue : word.isValue = true ∧ word.isBool = false := by
      rw [Parser.isValue, Parser.isBound, Parser.isBool, wordTakes.kind]
      obtain rfl | rfl := wordKind <;> exact ⟨rfl, rfl⟩
    have visible : kind ≠ .end_ := by
      obtain rfl | rfl := wordKind <;> decide
    have shorter := commaTakes.remaining_lt (by decide)
    have shorter' := wordTakes.remaining_lt visible
    cases fuel with
    | zero => omega
    | succ fuel =>
      simp only [Parser.listTail, commaTakes.kind, if_true, afterToken, commaTakes.advance, isValue,
        wordTakes.advance,
        wordTakes.text, Bool.and_false]
      rw [tailRead column fuel _ (by omega), List.append_assoc, List.singleton_append]

/-- A list of values that is not read as one number or one time. -/
theorem finishes_appendEnumeration {filterValues : List Bytes} (some_ : filterValues ≠ [])
    (plain : ∀ only, filterValues = [only] →
    parseIsoTimestamp only = none ∧ parseDouble strtod only = none) :
    Finishes strtod (appendEnumeration filterValues) fun column =>
      { leafRule column .enumeration with filterValues := filterValues } := by
  cases filterValues with
  | nil => exact absurd rfl some_
  | cons value values =>
    -- What the values are read as is the enumeration of them.
    have listed : ∀ column, Parser.listLeaf strtod column false (value :: values) =
        { leafRule column .enumeration with filterValues := value :: values } := by
      intro column
      cases values with
      | nil =>
        obtain ⟨noTime, noNumber⟩ := plain value rfl
        simp only [Parser.listLeaf, Bool.false_eq_true, if_false, noTime, noNumber]
      | cons next values => rfl
    refine ⟨fun rest => rfl, fun {size rest behind} stops stands => ?_⟩
    obtain ⟨tail, tailStands, noDots, tailRead⟩ :=
      @exists_values strtod size rest behind values stands
    have tailStops : (appendValues values ++ rest).head?.any isIdentChar = false := by
      cases values <;> rfl
    obtain ⟨word, kind, wordTakes, wordKind⟩ := exists_formatIdent value tailStops tailStands
    obtain ⟨op, opStands, entered⟩ := @exists_in strtod _ _ _ wordTakes.standsAt
    refine ⟨op, by simpa [appendEnumeration, bytes] using opStands, fun parser fuel column toOp enough => ?_⟩
    obtain ⟨list, parsed, bracket, toWord, enough⟩ := entered parser fuel column toOp enough
    have word_ : word.isValue = true ∧ word.isBool = false ∧ word.lookahead.kind ≠ .dotDot ∧
        kind ≠ .end_ := by
      rw [Parser.isValue, Parser.isBound, Parser.isBool, wordTakes.kind]
      obtain rfl | rfl := wordKind <;> exact ⟨rfl, rfl, by decide, by decide⟩
    obtain ⟨isValue, isBool, wordNoDots, visible⟩ := word_
    have shorter := wordTakes.remaining_lt visible
    rw [parsed]
    simp only [Parser.finishInLeaf, bracket, if_true, toWord, afterToken, if_neg wordNoDots,
      isValue, wordTakes.advance,
      if_neg noDots, isBool, wordTakes.text]
    rw [tailRead _ fuel _ (by omega), List.singleton_append, listed]

/-- The list of both booleans. -/
theorem finishes_booleans :
    Finishes strtod (bytes " IN [true, false]") fun column =>
      { leafRule column .boolean with filterValues := [bytes "true", bytes "false"] } := by
  refine ⟨fun rest => rfl, fun {size rest behind} stops stands => ?_⟩
  obtain ⟨closing, closingTakes⟩ := exists_single (ascii ']') rfl (by decide) rfl stands
  obtain ⟨second, secondTakes⟩ :=
    @exists_keyword size _ .false_ _ (bytes "false") rfl rfl rfl rfl closingTakes.standsAt
  obtain ⟨comma, commaTakes⟩ :=
    exists_single (ascii ',') rfl (by decide) rfl secondTakes.space.standsAt
  obtain ⟨first, firstTakes⟩ :=
    @exists_keyword size _ .true_ _ (bytes "true") rfl rfl rfl rfl commaTakes.standsAt
  obtain ⟨op, opStands, entered⟩ := @exists_in strtod _ _ _ firstTakes.standsAt
  refine ⟨op, opStands, fun parser fuel column toOp enough => ?_⟩
  obtain ⟨list, parsed, bracket, toFirst, enough⟩ := entered parser fuel column toOp enough
  have firstValue : first.isValue = true ∧ first.isBool = true := by
    rw [Parser.isValue, Parser.isBound, Parser.isBool, firstTakes.kind]
    exact ⟨rfl, rfl⟩
  have secondValue : second.isValue = true ∧ second.isBool = true := by
    rw [Parser.isValue, Parser.isBound, Parser.isBool, secondTakes.kind]
    exact ⟨rfl, rfl⟩
  -- The list has two steps, and four tokens.
  have shorter := firstTakes.remaining_lt (by decide)
  have shorter' := commaTakes.remaining_lt (by decide)
  obtain ⟨fuel, rfl⟩ : ∃ steps, fuel = steps + 2 := ⟨fuel - 2, by omega⟩
  rw [parsed]
  simp only [Parser.finishInLeaf, bracket, if_true, toFirst, afterToken, firstTakes.kind,
    reduceCtorEq, if_false, firstValue,
    firstTakes.advance, commaTakes.kind, Parser.listTail, commaTakes.advance, secondValue,
    secondTakes.advance,
    closingTakes.kind, firstTakes.text, secondTakes.text, closingTakes.leafBehind]
  rfl

end Lists

section Leaves

variable {formatNumber : Double → Bytes} {strtod : Bytes → Option Double}

/-- A leaf for numbers. -/
theorem finishes_appendNumber {filterMinValue filterMaxValue : Option Double}
    (some_ : ¬(filterMinValue = none ∧ filterMaxValue = none))
    (lower : ∀ bound ∈ filterMinValue, ReadsBack formatNumber strtod bound)
    (upper : ∀ bound ∈ filterMaxValue, ReadsBack formatNumber strtod bound)
    (ordered : ∀ first ∈ filterMinValue, ∀ second ∈ filterMaxValue, second.lt first = false) :
    Finishes strtod (appendNumber formatNumber filterMinValue filterMaxValue) fun column =>
      { leafRule column .number with
        filterMinValue := filterMinValue
        filterMaxValue := printedUpper filterMinValue filterMaxValue } := by
  cases filterMinValue with
  | none =>
    cases filterMaxValue with
    | none => exact absurd ⟨rfl, rfl⟩ some_
    | some second => exact finishes_compare (.inr ⟨rfl, rfl⟩) (readsBound_number (upper second rfl))
  | some first =>
    cases filterMaxValue with
    | none => exact finishes_compare (.inl ⟨rfl, rfl⟩) (readsBound_number (lower first rfl))
    | some second =>
      by_cases same : first.sameValue second = true
      · simp only [appendNumber, printedUpper, same, if_true]
        exact finishes_equalNumber (lower first rfl)
      · simp only [appendNumber, printedUpper, if_neg same]
        refine finishes_range (readsBound_number (lower first rfl))
          (readsBound_number (upper second rfl)) fun column offset => ?_
        -- The bounds are in order, so that the range is no error.
        simp only [Parser.rangeLeaf, ordered first rfl second rfl, Bool.false_eq_true, if_false]

/-- A leaf for times. -/
theorem finishes_appendTime {filterBegin filterEnd : Option Int64}
    (some_ : ¬(filterBegin = none ∧ filterEnd = none))
    (lower : ∀ bound ∈ filterBegin, HasFourDigitYear bound)
    (upper : ∀ bound ∈ filterEnd, HasFourDigitYear bound)
    (ordered : ∀ first ∈ filterBegin, ∀ second ∈ filterEnd, first ≤ second) :
    Finishes strtod (appendBounds formatTimestampMicros filterBegin filterEnd) fun column =>
      { leafRule column .time with filterBegin := filterBegin, filterEnd := filterEnd } := by
  -- One bound is printed as a comparison, two as a range.
  cases filterBegin with
  | none =>
    cases filterEnd with
    | none => exact absurd ⟨rfl, rfl⟩ some_
    | some second => exact finishes_compare (.inr ⟨rfl, rfl⟩) (readsBound_time (upper second rfl))
  | some first =>
    cases filterEnd with
    | none => exact finishes_compare (.inl ⟨rfl, rfl⟩) (readsBound_time (lower first rfl))
    | some second =>
      refine finishes_range (readsBound_time (lower first rfl)) (readsBound_time (upper second rfl))
        fun column offset => ?_
      have inOrder : ¬second < first := Int64.not_lt.mpr (ordered first rfl second rfl)
      simp only [Parser.rangeLeaf, if_neg inOrder]

/-- A leaf for booleans. -/
theorem finishes_appendBoolean {filterValues : List Bytes}
    (some_ : spells filterValues "true" = true ∨ spells filterValues "false" = true) :
    Finishes strtod (appendBoolean filterValues) fun column =>
      { leafRule column .boolean with
        filterValues := (if spells filterValues "true" then [bytes "true"] else []) ++
          if spells filterValues "false" then [bytes "false"] else [] } := by
  rw [appendBoolean]
  -- One word is printed as an equation, two as a list.
  cases hasTrue : spells filterValues "true" <;> cases hasFalse : spells filterValues "false"
  · rw [hasTrue, hasFalse] at some_
    exact absurd some_ (by decide)
  · exact finishes_equalBoolean (.inr ⟨rfl, rfl⟩)
  · exact finishes_equalBoolean (.inl ⟨rfl, rfl⟩)
  · exact finishes_booleans

/-- A printable leaf is read as its rule, whatever ends it. -/
theorem parseLeaf_printed {rule : LeafRule} (printable : PrintableLeaf formatNumber strtod rule)
    {size : Nat} {rest : Bytes}
    {behind : Parser} (stops : rest.head?.any isIdentChar = false)
    (stands : behind.StandsAt size rest) :
    ∃ parser : Parser, parser.StandsAt size (appendLeaf formatNumber rule ++ rest) ∧
      (parser.lookahead.kind = .ident ∨ parser.lookahead.kind = .quoted) ∧
      ∀ fuel, parser.remaining < fuel → parser.parseLeaf strtod fuel = some
        (.ok (.leaf (printedRule rule), behind)) := by
  obtain ⟨⟨⟨column, one⟩, payloadOk⟩, survive⟩ := printable
  -- Whatever the type, the payload is read to the end of the leaf.
  have finished : ∃ payload, appendLeaf formatNumber rule = formatIdent column ++ payload ∧
      ∃ read, Finishes strtod payload read ∧ read column = printedRule rule := by
    rw [appendLeaf, one, List.head?_cons, Option.elim_some, printedRule, one, List.headD_cons]
    refine ⟨_, rfl, ?_⟩
    cases type : rule.type with
    | string =>
      rw [type] at payloadOk
      obtain ⟨matchType, value, sameMatch, sameValue, keeps⟩ := payloadOk
      rw [sameMatch, sameValue]
      exact ⟨_, finishes_appendString value matchType keeps, rfl⟩
    | number =>
      rw [type] at payloadOk
      obtain ⟨some_, ordered⟩ := payloadOk
      obtain ⟨lower, upper⟩ := survive.numbers type
      exact ⟨_, finishes_appendNumber some_ lower upper ordered, rfl⟩
    | time =>
      rw [type] at payloadOk
      obtain ⟨some_, ordered⟩ := payloadOk
      obtain ⟨lower, upper⟩ := survive.times type
      exact ⟨_, finishes_appendTime some_ lower upper ordered, rfl⟩
    | boolean =>
      rw [type] at payloadOk
      exact ⟨_, finishes_appendBoolean payloadOk, rfl⟩
    | enumeration =>
      rw [type] at payloadOk
      exact ⟨_, finishes_appendEnumeration payloadOk.1 payloadOk.2, rfl⟩
  obtain ⟨payload, written, read, finishes, sameRule⟩ := finished
  obtain ⟨op, opStands, reads⟩ := finishes.reads stops stands
  obtain ⟨parser, kind, takes, word⟩ := exists_formatIdent column (finishes.stops rest) opStands
  have found : parser.lookahead.kind = .ident ∨ parser.lookahead.kind = .quoted := takes.kind ▸ word
  have visible : kind ≠ .end_ := by
    obtain rfl | rfl := word <;> decide
  refine ⟨parser, by rw [written, List.append_assoc]; exact takes.standsAt, found, fun fuel enough => ?_⟩
  have shorter := takes.remaining_lt visible
  rw [reads parser fuel found takes.advance (by omega), takes.text, sameRule]

end Leaves

end Loglib.Query
