import Loglib.Query.PrintedLeaves

/-! Printed queries are parsed to the trees that their texts are read as, which accept the
same rows. -/

namespace Loglib.Query

section Texts

variable {strtod : Bytes → Option Double} {size : Nat} {text rest : Bytes} {parser behind : Parser}

/-- A space in front of a text does not matter. -/
theorem Parser.StandsAt.space (stands : parser.StandsAt size text) :
    parser.StandsAt size (ascii ' ' :: text) := by
  rw [Parser.StandsAt, Lexer.next_space]
  exact stands

/-- In front of a text, no more is to be parsed than the text has bytes. -/
theorem Parser.StandsAt.remaining_le (stands : parser.StandsAt size text) :
    parser.remaining ≤ text.length := by
  rw [Parser.StandsAt] at stands
  -- The first token is at least one byte of the text.
  cases scanned : Lexer.next ⟨size, text⟩ with
  | error failed =>
    rw [scanned] at stands
    cases stands
  | ok found =>
    rw [scanned] at stands
    obtain rfl := Except.ok.inj stands
    exact Lexer.shortens_next _ found.1 found.2 scanned

/-- A text is read by a part of the parser, up to tokens that may follow it. -/
def ReadsText (text : Bytes) (follows : TokenKind → Prop)
    (parses : Parser → Parser → Prop) : Prop :=
  ∀ (size : Nat) (rest : Bytes) (behind : Parser), rest.head?.any isIdentChar = false →
    behind.StandsAt size rest →
    follows behind.lookahead.kind → ∃ parser : Parser, parser.StandsAt size (text ++ rest) ∧
      parser.startsAtom = true ∧
      behind.remaining < parser.remaining ∧ parses parser behind

/-- A text is read by a loop of the parser as operands: the first one is parsed by itself, and the
loop takes the others. -/
def ReadsOperands (text : Bytes) (follows : TokenKind → Prop)
    (operand : Nat → Parser → Option Parsed)
    (tail : Nat → Nat → List FilterExpression → Parser → Option Parsed)
    (trees : List FilterExpression) : Prop :=
  ReadsText text follows fun parser behind =>
    ∀ (fuel steps : Nat) (children : List FilterExpression), parser.remaining < fuel →
      parser.remaining ≤ steps →
      ∃ left, behind.remaining < left ∧
        afterTree (operand fuel parser) (fun tree => tail fuel steps (children ++ [tree])) =
          tail fuel left (children ++ trees) behind

/-- The children of a node, one behind the other, are read as the operands of each. -/
theorem readsOperands_children {formatNumber : Double → Bytes} {follows : TokenKind → Prop}
    {operand : Nat → Parser → Option Parsed}
    {tail : Nat → Nat → List FilterExpression → Parser → Option Parsed}
    {word : Bytes} {kind : TokenKind} {level : Precedence}
    (listed : keywords.lookup (word.map foldAscii) = some kind)
    (start : word.head?.any isIdentStart = true)
    (all : word.all isIdentChar = true) (visible : kind ≠ .end_) (followed : follows kind)
    (step : ∀ (fuel steps : Nat) (children : List FilterExpression) (parser next : Parser),
    parser.lookahead.kind = kind →
      parser.advance = .ok next → tail fuel (steps + 1) children parser =
        afterTree (operand fuel next) fun tree => tail fuel steps (children ++ [tree]))
    {children : List FilterExpression} (some_ : children ≠ [])
    (reads : ∀ child ∈ children,
    ReadsOperands (appendExpression formatNumber child level) follows operand tail
      (operands child level)) :
    ReadsOperands (appendChildren formatNumber children level (ascii ' ' :: (word ++ [ascii ' '])))
      follows operand tail
      (operandsOf children level) := by
  induction children with
  | nil => exact absurd rfl some_
  | cons child others ih =>
    intro size rest behind stops stands follow
    cases others with
    | nil =>
      -- The last child is read up to what follows the node.
      obtain ⟨parser, atChild, starts, shorter, taken⟩ :=
        reads child List.mem_cons_self size rest behind stops stands follow
      refine ⟨parser, by simpa [appendChildren] using atChild, starts, shorter, ?_⟩
      simpa [operandsOf] using taken
    | cons next others =>
      obtain ⟨second, atOthers, -, shorter, othersTaken⟩ :=
        ih (List.cons_ne_nil _ _) (fun later member => reads later (List.mem_cons_of_mem _ member))
          size rest behind stops stands follow
      obtain ⟨between, betweenTakes⟩ := exists_keyword listed start all rfl atOthers.space
      obtain ⟨parser, atChild, starts, shorter', taken⟩ :=
        reads child List.mem_cons_self size _ between rfl betweenTakes.space.standsAt
          (betweenTakes.kind ▸ followed)
      have shorter'' := betweenTakes.remaining_lt visible
      refine ⟨parser, by simpa [appendChildren] using atChild, starts, by omega,
        fun fuel steps children enough bound => ?_⟩
      -- The loop stands at the keyword when the first child is taken, and has steps
      -- left for the others.
      obtain ⟨left, atLeast, toKeyword⟩ := taken fuel steps children enough bound
      obtain ⟨left, rfl⟩ : ∃ fewer, left = fewer + 1 := ⟨left - 1, by omega⟩
      obtain ⟨last, enoughLeft, toEnd⟩ :=
        othersTaken fuel left (children ++ operands child level) (by omega) (by omega)
      refine ⟨last, enoughLeft, ?_⟩
      rw [toKeyword, step fuel left _ between second betweenTakes.kind betweenTakes.advance, toEnd,
        List.append_assoc]
      rfl

end Texts

section Levels

variable (formatNumber : Double → Bytes) (strtod : Bytes → Option Double)

/-- An operand of a conjunction. -/
def andOperand (fuel : Nat) (parser : Parser) : Option Parsed :=
  Parser.parseNot strtod (Parser.parseOr strtod fuel) fuel fuel parser

/-- An operand of a disjunction. -/
def orOperand (fuel : Nat) (parser : Parser) : Option Parsed := parser.parseAnd strtod
    (Parser.parseOr strtod fuel) fuel

/-- What may follow a disjunction. -/
def EndsQuery (kind : TokenKind) : Prop := kind = .end_ ∨ kind = .rParen

/-- What may follow a conjunction. -/
def EndsConjunction (kind : TokenKind) : Prop := EndsQuery kind ∨ kind = .kwOr

/-- A tree is read at each of the levels at which it is printed. -/
structure ReadsTree (expression : FilterExpression) : Prop where
  not : ReadsText (appendExpression formatNumber expression .not) (fun _ =>
    True) fun parser behind =>
    ∀ fuel steps : Nat, parser.remaining < fuel → parser.remaining < steps →
      Parser.parseNot strtod (Parser.parseOr strtod fuel) fuel steps parser =
        some (.ok (normal expression, behind))
  and : ReadsOperands (appendExpression formatNumber expression .and) (fun _ =>
    True) (andOperand strtod)
    (fun fuel => Parser.andTail (andOperand strtod fuel)) (operands expression .and)
  or : ReadsOperands (appendExpression formatNumber expression .or) EndsConjunction
    (orOperand strtod)
    (fun fuel => Parser.orTail (orOperand strtod fuel)) (operands expression .or)

variable {formatNumber strtod}

/-- An operand of a negation is an operand of a conjunction, when it is printed as one. -/
theorem readsOperands_of_not {expression : FilterExpression}
    (sameText : appendExpression formatNumber expression .and =
    appendExpression formatNumber expression .not)
    (one : operands expression .and = [normal expression])
    (reads : ReadsText (appendExpression formatNumber expression .not) (fun _ =>
    True) fun parser behind =>
      ∀ fuel steps : Nat, parser.remaining < fuel → parser.remaining < steps →
        Parser.parseNot strtod (Parser.parseOr strtod fuel) fuel steps parser =
          some (.ok (normal expression, behind))) :
    ReadsOperands (appendExpression formatNumber expression .and) (fun _ => True)
      (andOperand strtod)
      (fun fuel => Parser.andTail (andOperand strtod fuel)) (operands expression .and) := by
  -- The text is that of an operand, which the inner parser reads.
  rw [sameText, one]
  intro size rest behind stops stands follow
  obtain ⟨parser, atText, starts, shorter, parsed⟩ := reads size rest behind stops stands follow
  refine ⟨parser, atText, starts, shorter, fun fuel steps children enough bound =>
    ⟨steps, by omega, ?_⟩⟩
  rw [andOperand, parsed fuel fuel enough enough]
  rfl

/-- A conjunction is an operand of a disjunction, when it is printed as one. -/
theorem readsOperands_of_and {expression : FilterExpression}
    (sameText : appendExpression formatNumber expression .or =
    appendExpression formatNumber expression .and)
    (one : operands expression .or = [normal expression])
    (reads : ReadsOperands (appendExpression formatNumber expression .and) (fun _ =>
    True) (andOperand strtod)
      (fun fuel => Parser.andTail (andOperand strtod fuel)) (operands expression .and)) :
    ReadsOperands (appendExpression formatNumber expression .or) EndsConjunction (orOperand strtod)
      (fun fuel => Parser.orTail (orOperand strtod fuel)) (operands expression .or) := by
  rw [sameText, one]
  intro size rest behind stops stands follow
  obtain ⟨parser, atText, starts, shorter, taken⟩ := reads size rest behind stops stands trivial
  refine ⟨parser, atText, starts, shorter, fun fuel steps children enough bound =>
    ⟨steps, by omega, ?_⟩⟩
  obtain ⟨left, atLeast, toEnd⟩ := taken fuel fuel [] enough enough.le
  obtain ⟨left, rfl⟩ : ∃ fewer, left = fewer + 1 := ⟨left - 1, by omega⟩
  -- No operand follows, so that the loop of the conjunction ends.
  have noAnd : behind.lookahead.kind ≠ .kwAnd ∧ behind.startsAtom = false := by
    rw [Parser.startsAtom]
    obtain (same | same) | same := follow <;> rw [same] <;> exact ⟨by decide, rfl⟩
  have conjunction : orOperand strtod fuel parser = some (.ok (normal expression, behind)) := by
    rw [orOperand, Parser.parseAnd]
    refine toEnd.trans ?_
    dsimp only
    rw [Parser.andTail, if_neg noAnd.1, noAnd.2, List.nil_append, joined_operands]
    rfl
  rw [conjunction]
  rfl

/-- A group is an operand of a negation. -/
theorem readsText_group {expression : FilterExpression}
    (grouped : appendExpression formatNumber expression .not =
      bytes "(" ++ (appendExpression formatNumber expression .or ++ bytes ")"))
    (reads : ReadsOperands (appendExpression formatNumber expression .or) EndsConjunction
    (orOperand strtod)
      (fun fuel => Parser.orTail (orOperand strtod fuel)) (operands expression .or)) :
    ReadsText (appendExpression formatNumber expression .not) (fun _ => True) fun parser behind =>
      ∀ fuel steps : Nat, parser.remaining < fuel → parser.remaining < steps →
        Parser.parseNot strtod (Parser.parseOr strtod fuel) fuel steps parser = some
          (.ok (normal expression, behind)) := by
  rw [grouped]
  intro size rest behind stops stands follow
  obtain ⟨closing, closingTakes⟩ := exists_single (ascii ')') rfl (by decide) rfl stands
  obtain ⟨inner, atInner, -, shorter, taken⟩ :=
    reads size _ closing rfl closingTakes.standsAt (.inl (.inr closingTakes.kind))
  obtain ⟨parser, opens⟩ := exists_single (ascii '(') rfl (by decide) rfl atInner
  have shorter' := opens.remaining_lt (by decide)
  have shorter'' := closingTakes.remaining_lt (by decide)
  refine ⟨parser, by simpa [bytes] using opens.standsAt, by rw [Parser.startsAtom, opens.kind]; rfl, by omega,
    fun fuel steps enough bound => ?_⟩
  obtain ⟨fuel, rfl⟩ : ∃ fewer, fuel = fewer + 1 := ⟨fuel - 1, by omega⟩
  obtain ⟨steps, rfl⟩ : ∃ fewer, steps = fewer + 1 := ⟨steps - 1, by omega⟩
  obtain ⟨left, atLeast, toEnd⟩ := taken fuel fuel [] (by omega) (by omega)
  obtain ⟨left, rfl⟩ : ∃ fewer, left = fewer + 1 := ⟨left - 1, by omega⟩
  -- Behind the whole group is the parenthesis that closes it.
  have whole : Parser.parseOr strtod (fuel + 1) inner =
      some (.ok (normal expression, closing)) := by
    have noOr : closing.lookahead.kind ≠ .kwOr := by rw [closingTakes.kind]; decide
    rw [Parser.parseOr]
    refine toEnd.trans ?_
    dsimp only
    rw [Parser.orTail, if_neg noOr, List.nil_append, normal]
  simp only [Parser.parseNot, opens.kind, reduceCtorEq, if_false, Parser.parseAtom, if_true,
    afterToken, opens.advance, whole,
    afterTree, closingTakes.kind, closingTakes.advance]

/-- Every printable tree is read at each of the levels. -/
theorem readsTree {expression : FilterExpression}
    (printable : Printable (PrintableLeaf formatNumber strtod) expression) :
    ReadsTree formatNumber strtod expression := by
  induction printable with
  | leaf rule ok =>
    have not_ : ReadsText (appendExpression formatNumber (.leaf rule) .not) (fun _ =>
      True) fun parser behind =>
        ∀ fuel steps : Nat, parser.remaining < fuel → parser.remaining < steps →
          Parser.parseNot strtod (Parser.parseOr strtod fuel) fuel steps parser =
            some (.ok (normal (.leaf rule), behind)) := by
      intro size rest behind stops stands follow
      obtain ⟨parser, atLeaf, word, parsed⟩ := parseLeaf_printed ok stops stands
      have starts : parser.startsAtom = true := by
        rw [Parser.startsAtom]
        obtain same | same := word <;> rw [same] <;> rfl
      -- A leaf that is parsed leaves less to parse.
      have shorter : behind.remaining < parser.remaining := by
        obtain ⟨result, found, below⟩ :=
          @endsBelow_parseLeaf strtod parser (parser.remaining + 1) (by omega)
        rw [parsed _ (by omega)] at found
        exact below _ behind (Option.some.inj found).symm
      have noNot : parser.lookahead.kind ≠ .kwNot ∧ parser.lookahead.kind ≠ .lParen := by
        obtain same | same := word <;> rw [same] <;> decide
      refine ⟨parser, atLeaf, starts, shorter, fun fuel steps enough bound => ?_⟩
      obtain ⟨steps, rfl⟩ : ∃ fewer, steps = fewer + 1 := ⟨steps - 1, by omega⟩
      rw [Parser.parseNot, if_neg noNot.1, Parser.parseAtom, if_neg noNot.2, parsed fuel enough]
      rfl
    have and_ := readsOperands_of_not rfl rfl not_
    exact ⟨not_, and_, readsOperands_of_and rfl rfl and_⟩
  | not child ok ih =>
    have not_ : ReadsText (appendExpression formatNumber (.not (some child)) .not) (fun _ =>
      True) fun parser behind =>
        ∀ fuel steps : Nat, parser.remaining < fuel → parser.remaining < steps →
          Parser.parseNot strtod (Parser.parseOr strtod fuel) fuel steps parser =
            some (.ok (normal (.not (some child)), behind)) := by
      intro size rest behind stops stands follow
      obtain ⟨inner, atChild, -, shorter, parsed⟩ := ih.not size rest behind stops stands follow
      obtain ⟨parser, negates⟩ :=
        @exists_keyword size _ .kwNot _ (bytes "NOT") rfl rfl rfl rfl atChild.space
      have shorter' := negates.remaining_lt (by decide)
      refine ⟨parser, by simpa [appendExpression, bytes] using negates.standsAt,
        by rw [Parser.startsAtom, negates.kind]; rfl,
        by omega, fun fuel steps enough bound => ?_⟩
      obtain ⟨steps, rfl⟩ : ∃ fewer, steps = fewer + 1 := ⟨steps - 1, by omega⟩
      rw [Parser.parseNot, if_pos negates.kind, negates.advance, afterToken,
        parsed fuel steps (by omega) (by omega)]
      rfl
    have and_ := readsOperands_of_not rfl rfl not_
    exact ⟨not_, and_, readsOperands_of_and rfl rfl and_⟩
  | and children some_ ok ih =>
    have text := appendExpression_and formatNumber some_
    have and_ : ReadsOperands (appendExpression formatNumber (.and children) .and) (fun _ =>
      True) (andOperand strtod)
        (fun fuel => Parser.andTail (andOperand strtod fuel)) (operands (.and children) .and) := by
      rw [text]
      refine @readsOperands_children formatNumber _ _ _ (bytes "AND") .kwAnd .and
        rfl rfl rfl (by decide) trivial ?_ children some_
        fun child member => (ih child member).and
      intro fuel steps children parser next kind toNext
      simp only [Parser.andTail, kind, if_true, toNext, afterToken]
    have or_ := readsOperands_of_and (by rw [text, text]; rfl) rfl and_
    exact ⟨readsText_group (by rw [text, text]; rfl) or_, and_, or_⟩
  | or children some_ ok ih =>
    have text := appendExpression_or formatNumber some_
    have or_ : ReadsOperands (appendExpression formatNumber (.or children) .or) EndsConjunction
      (orOperand strtod)
        (fun fuel => Parser.orTail (orOperand strtod fuel)) (operands (.or children) .or) := by
      rw [text]
      refine @readsOperands_children formatNumber _ _ _ (bytes "OR") .kwOr .or
        rfl rfl rfl (by decide) (.inr rfl) ?_ children some_
        fun child member => (ih child member).or
      intro fuel steps children parser next kind toNext
      simp only [Parser.orTail, kind, if_true, toNext, afterToken]
    have not_ := readsText_group (by rw [text, text]; rfl) or_
    exact ⟨not_, readsOperands_of_not (by rw [text, text]; rfl) rfl not_, or_⟩

end Levels

section Queries

variable {formatNumber : Double → Bytes} {strtod : Bytes → Option Double}
    {expression : FilterExpression}

/-- A printable tree is parsed to the tree that its text is read as. -/
theorem parseQuery_printed (printable : Printable (PrintableLeaf formatNumber strtod) expression) :
    parseQuery strtod (appendExpression formatNumber expression .or) = some
      (.ok (normal expression)) := by
  generalize hsize : (appendExpression formatNumber expression .or).length = size
  let behind : Parser := ⟨⟨size, []⟩, ⟨.end_, [], Lexer.position ⟨size, []⟩⟩⟩
  obtain ⟨parser, atText, starts, shorter, taken⟩ :=
    (readsTree printable).or size [] behind rfl rfl (.inl (.inl rfl))
  rw [List.append_nil] at atText
  have notEnd : parser.lookahead.kind ≠ .end_ := fun ends => by
    rw [Parser.startsAtom, ends] at starts
    cases starts
  have bound := atText.remaining_le
  obtain ⟨left, atLeast, toEnd⟩ := taken (size + 1) (size + 1) [] (by omega) (by omega)
  obtain ⟨left, rfl⟩ : ∃ fewer, left = fewer + 1 := ⟨left - 1, by omega⟩
  -- The end of the text is the end of the query.
  have whole : Parser.parseOr strtod (size + 2) parser =
      some (.ok (normal expression, behind)) := by
    rw [Parser.parseOr]
    refine toEnd.trans ?_
    dsimp only
    rw [Parser.orTail, if_neg (fun ends => by cases ends), List.nil_append, normal]
  rw [Parser.StandsAt] at atText
  rw [parseQuery, hsize, atText]
  simp only [if_neg notEnd, whole]
  rfl

/-- What leaves must have for the tree that their text is read as to accept the same rows. -/
theorem PrintableLeaf.texts {rule : LeafRule} (printable : PrintableLeaf formatNumber strtod rule) :
    (∃ column, rule.columnKeys = [column]) ∧ HasTexts rule := by
  obtain ⟨⟨one, payload⟩, -⟩ := printable
  refine ⟨one, fun type => ?_⟩
  rw [type] at payload
  obtain ⟨matchType, value, sameMatch, sameValue, -⟩ := payload
  rw [sameMatch, sameValue]
  exact ⟨nofun, nofun⟩

/-- Match-all is peeled to nothing else. -/
theorem isMatchAll_of_printable {leafOk : LeafRule → Prop}
    (printable : Printable leafOk expression) :
    expression.isMatchAll = false := by
  cases printable with
  | and children some_ ok => simpa [FilterExpression.isMatchAll] using some_
  | leaf rule ok => rfl
  | or children some_ ok => rfl
  | not child ok => rfl

/-- A printable tree is parsed from its text, to a tree that accepts the same rows. -/
theorem readBack_formatExpression (formatNumber : Double → Bytes) (strtod : Bytes → Option Double)
    (expression : FilterExpression)
    (printable : Printable (PrintableLeaf formatNumber strtod) expression) :
    parseQuery strtod (formatExpression formatNumber expression) = some (.ok (normal expression)) ∧
      ∀ (makeStringMatcher : Bytes → LeafRuleMatch → Bytes → Bool)
        (vformat : Bytes → LogValue → Bytes) (columns : List Column)
        (table : Option LogTable) (shown : LogTable),
        truthOf makeStringMatcher vformat columns table shown (normal expression) =
          truthOf makeStringMatcher vformat columns table shown expression := by
  refine ⟨?_, fun _ _ _ _ _ => truthOf_normal (fun rule ok => PrintableLeaf.texts ok) printable⟩
  -- Conjunctions of one child are peeled from the root, which does not change what is read.
  rw [formatExpression, isMatchAll_of_printable printable, if_neg Bool.false_ne_true,
    parseQuery_printed (printable_peelAnd printable), normal_peelAnd]

/-- Every printable tree, and match-all, is parsed from its text, to a tree that accepts the same
rows whatever the columns and the table. Nested nodes of one kind are one, and nodes of one child
are the child. -/
theorem parseQuery_formatExpression (formatNumber : Double → Bytes) (strtod : Bytes → Option Double)
    (expression : FilterExpression)
    (printable : expression = .and [] ∨ Printable (PrintableLeaf formatNumber strtod) expression) :
    parseQuery strtod (formatExpression formatNumber expression) = some (.ok (normal expression)) ∧
      ∀ (makeStringMatcher : Bytes → LeafRuleMatch → Bytes → Bool)
        (vformat : Bytes → LogValue → Bytes) (columns : List Column)
        (table : Option LogTable) (shown : LogTable),
        truthOf makeStringMatcher vformat columns table shown (normal expression) =
          truthOf makeStringMatcher vformat columns table shown expression := by
  obtain rfl | printable := printable
  · exact ⟨rfl, fun _ _ _ _ _ => rfl⟩
  · exact readBack_formatExpression formatNumber strtod expression printable

/-- Whole numbers as they are printed. -/
def wholeText (value : Double) : Bytes := decimalInt value.trunc

/-- Whole numbers as they are read. -/
def wholeValue (text : Bytes) : Option Double :=
  if text.all isDecimalDigit then some (.ofInt (digitsValue text)) else none

/-- One digit survives its text. -/
theorem readsBack_digit {digit : Nat} (small : digit < 10) :
    ReadsBack wholeText wholeValue (.ofInt digit) := by
  -- Ten digits, checked one by one.
  have all : ∀ digit : Fin 10, (paddedDecimal 1 digit).all isDecimalDigit = true ∧
    paddedDecimal 1 digit ≠ [] ∧
      paddedDecimal 1 digit = wholeText (.ofInt (digit : Nat)) ∧
        wholeValue (paddedDecimal 1 digit) = some (.ofInt (digit : Nat)) := by
    decide +kernel
  obtain ⟨digits, some_, printed, read⟩ := all ⟨digit, small⟩
  let literal : NumberLiteral :=
    ⟨false, paddedDecimal 1 digit, none, none, ⟨some_, digits⟩, nofun, nofun⟩
  have text : literal.text = paddedDecimal 1 digit := by
    simp [NumberLiteral.text, NumberLiteral.behindDigits, NumberLiteral.exponentText, literal]
  exact ⟨literal, text.trans printed, by rw [text]; exact read⟩

/-- A tree with a conjunction of one child in a disjunction, and a range of numbers. -/
def nestedTree : FilterExpression :=
  .or
    [.and [.leaf { leafRule (bytes "path") .string with
        matchType := some .regularExpression, filterString := some (bytes "a/b") }],
      .not (some (.or [.leaf { leafRule (bytes "n") .number with
          filterMinValue := some (.ofInt 5), filterMaxValue := some (.ofInt 9) },
        .leaf { leafRule (bytes "msg") .string with
          matchType := some .contains
          filterString := some (bytes "in") }]))]

/-- The tree is read from its text, without the conjunction. -/
theorem nestedTree_readBack :
    formatExpression wholeText nestedTree =
      bytes "path~/a\\/b/ OR NOT (n IN [5..9] OR msg:\"in\")" ∧
      parseQuery wholeValue (formatExpression wholeText nestedTree) = some
        (.ok (normal nestedTree)) := by
  refine ⟨by decide +kernel, (parseQuery_formatExpression wholeText wholeValue nestedTree (.inr ?_)).1⟩
  -- Each leaf has the shape that the printer writes.
  have path : LeafShape wholeValue { leafRule (bytes "path") .string with
      matchType := some .regularExpression, filterString := some (bytes "a/b") } :=
    ⟨⟨_, rfl⟩, _, _, rfl, rfl, fun _ => rfl⟩
  have range : LeafShape wholeValue { leafRule (bytes "n") .number with
      filterMinValue := some (.ofInt 5), filterMaxValue := some (.ofInt 9) } :=
    ⟨⟨_, rfl⟩, nofun, fun first isFirst second isSecond => by
      obtain rfl := Option.some.inj isFirst
      obtain rfl := Option.some.inj isSecond
      decide +kernel⟩
  have text : LeafShape wholeValue { leafRule (bytes "msg") .string with
      matchType := some .contains, filterString := some (bytes "in") } :=
    ⟨⟨_, rfl⟩, _, _, rfl, rfl, nofun⟩
  -- Both bounds are digits, which are read back.
  have survive : BoundsSurvive wholeText wholeValue { leafRule (bytes "n") .number with
      filterMinValue := some (.ofInt 5), filterMaxValue := some (.ofInt 9) } :=
    ⟨fun _ => ⟨fun bound same => Option.some.inj same ▸ readsBack_digit (show 5 < 10 by decide),
      fun bound same => Option.some.inj same ▸ readsBack_digit (show 9 < 10 by decide)⟩, nofun⟩
  refine .or _ (List.cons_ne_nil _ _) fun child member => ?_
  simp only [List.mem_cons, List.not_mem_nil, or_false] at member
  obtain rfl | rfl := member
  · refine .and _ (List.cons_ne_nil _ _) fun leaf only => ?_
    obtain rfl := List.mem_singleton.mp only
    exact .leaf _ ⟨path, nofun, nofun⟩
  · refine .not _ (.or _ (List.cons_ne_nil _ _) fun leaf either => ?_)
    simp only [List.mem_cons, List.not_mem_nil, or_false] at either
    obtain rfl | rfl := either
    · exact .leaf _ ⟨range, survive⟩
    · exact .leaf _ ⟨text, nofun, nofun⟩

end Queries

end Loglib.Query
