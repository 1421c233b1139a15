import Loglib.Query.TokenLaws

/-! Ranges of times: what a range between two literals is parsed to, and which literals can be in
front of the dots. -/

namespace Loglib.Query

section Steps

variable {strtod : Bytes → Option Double} {parser behind : Parser} {fuel : Nat}
    {tree : FilterExpression}

/-- The parser behind the next token. -/
theorem Parser.advance_eq {token : Token} {lexer : Lexer}
    (next : parser.lexer.next = .ok (token, lexer)) :
    parser.advance = .ok ⟨lexer, token⟩ := by
  rw [Parser.advance, Parser.withNext, next]
  rfl

/-- A leaf that ends the query is the whole tree. -/
theorem Parser.parseOr_leaf
    (column : parser.lookahead.kind = .ident ∨ parser.lookahead.kind = .quoted)
    (leaf : parser.parseLeaf strtod (fuel + 1) = some (.ok (tree, behind)))
    (ends : behind.lookahead.kind = .end_) :
    Parser.parseOr strtod (fuel + 2) parser = some (.ok (tree, behind)) := by
  -- The first token is the column, so the leaf stands alone: no `not`, no group, nothing behind it.
  have noNot : parser.lookahead.kind ≠ .kwNot := by
    rcases column with kind | kind <;> rw [kind] <;> decide
  have noGroup : parser.lookahead.kind ≠ .lParen := by
    rcases column with kind | kind <;> rw [kind] <;> decide
  have noAtom : behind.startsAtom = false := by rw [Parser.startsAtom, ends]; rfl
  have operand : Parser.parseNot strtod (Parser.parseOr strtod (fuel + 1)) (fuel + 1)
    (fuel + 1) parser =
      some (.ok (tree, behind)) := by
    rw [Parser.parseNot, if_neg noNot, Parser.parseAtom, if_neg noGroup, leaf]
  have conjunction : parser.parseAnd strtod (Parser.parseOr strtod (fuel + 1)) (fuel + 1) =
      some (.ok (tree, behind)) := by
    simp only [Parser.parseAnd, operand, afterTree, Parser.andTail, ends, noAtom]
    rfl
  rw [Parser.parseOr]
  simp only [conjunction, afterTree, Parser.orTail, ends]
  rfl

/-- A leaf that fails fails the query. -/
theorem Parser.parseOr_leaf_error
    (column : parser.lookahead.kind = .ident ∨ parser.lookahead.kind = .quoted)
    {failed : QueryParseError} (leaf : parser.parseLeaf strtod (fuel + 1) = some (.error failed)) :
    Parser.parseOr strtod (fuel + 2) parser = some (.error failed) := by
  -- A leaf starts with its column, so neither a negation nor a group is tried.
  have noNot : parser.lookahead.kind ≠ .kwNot := by
    rcases column with kind | kind <;> rw [kind] <;> decide
  have noGroup : parser.lookahead.kind ≠ .lParen := by
    rcases column with kind | kind <;> rw [kind] <;> decide
  have operand : Parser.parseNot strtod (Parser.parseOr strtod (fuel + 1)) (fuel + 1)
    (fuel + 1) parser =
      some (.error failed) := by
    rw [Parser.parseNot, if_neg noNot, Parser.parseAtom, if_neg noGroup, leaf]
  rw [Parser.parseOr]
  simp only [Parser.parseAnd, operand, afterTree]

end Steps

/-- A query for a column and what is behind the bracket. -/
def inQuery (column range : Bytes) : Bytes := formatIdent column ++ (bytes " IN [" ++ range)

section Queries

variable {strtod : Bytes → Option Double} {column range : Bytes}

/-- The parser at the bracket of a query, and what the query is parsed to from there. -/
theorem parseQuery_inQuery (strtod : Bytes → Option Double) (column range : Bytes) :
    ∃ list : Parser, list.lookahead.kind = .lBracket ∧
      list.lexer = ⟨(inQuery column range).length, range⟩ ∧
      (∀ tree behind, (∀ fuel, list.finishInLeaf strtod fuel column = some (.ok (tree, behind))) →
        behind.lookahead.kind = .end_ →
          parseQuery strtod (inQuery column range) = some (.ok tree)) ∧
      ∀ failed, (∀ fuel, list.finishInLeaf strtod fuel column = some (.error failed)) →
        parseQuery strtod (inQuery column range) = some (.error failed) := by
  obtain ⟨size, hsize⟩ : ∃ size, (inQuery column range).length = size := ⟨_, rfl⟩
  obtain ⟨columnTok, columnRead, columnText, columnKind⟩ :=
    @Lexer.next_formatIdent size (bytes " IN [" ++ range) column rfl
  -- Behind the column come the keyword and the bracket, each behind a blank.
  have inRead : ∃ offset, Lexer.next ⟨size, bytes " IN [" ++ range⟩ =
      .ok ({ kind := .kwIn, text := bytes "IN", offset }, ⟨size, bytes " [" ++ range⟩) := ⟨_, by
    have start : isIdentStart (ascii 'I') = true := rfl
    have split : bytes " IN [" ++ range = ascii ' ' :: ascii 'I' ::
        (ascii 'N' :: (bytes " [" ++ range)) := rfl
    rw [split, Lexer.next_space, Lexer.next_ident start]
    exact @Lexer.lexIdent_append size (bytes "IN") (bytes " [" ++ range) rfl rfl⟩
  obtain ⟨inOffset, inRead⟩ := inRead
  have bracketRead : ∃ offset, Lexer.next ⟨size, bytes " [" ++ range⟩ =
      .ok ({ kind := .lBracket, text := [], offset }, ⟨size, range⟩) := ⟨_, by
    have split : bytes " [" ++ range = ascii ' ' :: ascii '[' :: range := rfl
    rw [split, Lexer.next_space]
    exact Lexer.next_single rfl (by decide) rfl⟩
  obtain ⟨bracketOffset, bracketRead⟩ := bracketRead
  let list : Parser := ⟨⟨size, range⟩, ⟨.lBracket, [], bracketOffset⟩⟩
  let first : Parser := ⟨⟨size, bytes " IN [" ++ range⟩, columnTok⟩
  -- From there on the leaf is what the range is read as.
  have leaf : ∀ fuel, first.parseLeaf strtod fuel = list.finishInLeaf strtod fuel column :=
    fun fuel => by
    have columnAdvance : first.advance = .ok ⟨⟨size, bytes " [" ++ range⟩,
        ⟨.kwIn, bytes "IN", inOffset⟩⟩ :=
      Parser.advance_eq inRead
    have inAdvance : Parser.advance ⟨⟨size, bytes " [" ++ range⟩, ⟨.kwIn, bytes "IN", inOffset⟩⟩ =
        .ok list :=
      Parser.advance_eq bracketRead
    rw [Parser.parseLeaf, if_pos columnKind]
    simp only [columnAdvance, afterToken, inAdvance, first, columnText]
  have query : Parser.withNext (Lexer.next ⟨size, inQuery column range⟩) = .ok first := by
    rw [inQuery, columnRead]
    rfl
  -- A query that begins with a column is no empty one.
  have notEnd : first.lookahead.kind ≠ .end_ := by
    rcases columnKind with kind | kind <;> simp [first, kind]
  refine ⟨list, rfl, by rw [hsize], fun tree behind finished ends => ?_, fun failed finished => ?_⟩
  · have parsed := @Parser.parseOr_leaf strtod first behind size tree columnKind
      (by rw [leaf, finished]) ends
    rw [parseQuery, hsize, query]
    simp only [if_neg notEnd, parsed, ends, if_true]
  · have parsed := @Parser.parseOr_leaf_error strtod first size columnKind failed
      (by rw [leaf, finished])
    rw [parseQuery, hsize, query]
    simp only [if_neg notEnd, parsed]

/-- What is behind the literal of a range, with the bracket that closes it. -/
theorem finishRangeUpper_literal {parser : Parser} {size : Nat} {firstTok : Option Token}
    {first : Option Parser.RangeBound}
    {upper : Int64} {rule : LeafRule} (kind : parser.lookahead.kind = .ident)
    (rest : parser.lexer = ⟨size, [ascii ']']⟩)
    (read : parseIsoTimestamp parser.lookahead.text = some upper)
    (firstRead : Parser.classifyBound strtod "range lower bound must be a number or ISO timestamp"
    firstTok = .ok first)
    (leaf : Parser.rangeLeaf column parser.lookahead.offset first (some (.time upper)) = .ok rule) :
    ∃ behind, parser.finishRangeUpper strtod column firstTok = .ok
      (.leaf rule, behind) ∧ behind.lookahead.kind = .end_ := by
  have bound : parser.isBound = true := by rw [Parser.isBound, kind]; rfl
  -- Behind the literal stands the bracket, and behind that the end.
  let closing : Parser := ⟨⟨size, []⟩, ⟨.rBracket, [], Lexer.position ⟨size, [ascii ']']⟩⟩⟩
  let behind : Parser := ⟨⟨size, []⟩, ⟨.end_, [], Lexer.position ⟨size, []⟩⟩⟩
  have toBracket : parser.advance = .ok closing :=
    Parser.advance_eq (by rw [rest]; exact Lexer.next_single rfl (by decide) rfl)
  have toEnd : closing.advance = .ok behind := rfl
  have secondRead : Parser.classifyBound strtod
    "range upper bound must be a number or ISO timestamp" (some parser.lookahead) =
      .ok (some (.time upper)) := by
    simp only [Parser.classifyBound, Parser.classify, read]
  have bracket : ¬closing.lookahead.kind ≠ .rBracket := fun other => other rfl
  refine ⟨behind, ?_, rfl⟩
  simp only [Parser.finishRangeUpper, Parser.closeRange, bound, if_true, toBracket, firstRead,
    secondRead, toEnd, if_neg bracket, leaf, bind,
    Except.bind, Option.elim_some, reduceCtorEq, and_false, if_false]
  rfl

/-- The bracket behind the dots, for a range without an upper bound. -/
theorem finishRangeUpper_bracket {parser : Parser} {size : Nat} {firstTok : Token}
    {first : Option Parser.RangeBound}
    {rule : LeafRule} (kind : parser.lookahead.kind = .rBracket) (rest : parser.lexer = ⟨size, []⟩)
    (firstRead : Parser.classifyBound strtod "range lower bound must be a number or ISO timestamp"
    (some firstTok) = .ok first)
    (leaf : Parser.rangeLeaf column 0 first none = .ok rule) :
    ∃ behind, parser.finishRangeUpper strtod column (some firstTok) = .ok (.leaf rule, behind) ∧
      behind.lookahead.kind = .end_ := by
  have bound : parser.isBound = false := by rw [Parser.isBound, kind]; rfl
  -- No bound is left to read, so the bracket ends the leaf.
  let behind : Parser := ⟨⟨size, []⟩, ⟨.end_, [], Lexer.position ⟨size, []⟩⟩⟩
  have toEnd : parser.advance = .ok behind := Parser.advance_eq (by rw [rest]; rfl)
  have secondRead : Parser.classifyBound strtod
      "range upper bound must be a number or ISO timestamp" none = .ok none := rfl
  have bracket : ¬parser.lookahead.kind ≠ .rBracket := fun other => other kind
  refine ⟨behind, ?_, rfl⟩
  simp only [Parser.finishRangeUpper, Parser.closeRange, bound, Bool.false_eq_true, if_false, toEnd,
    firstRead, secondRead, if_neg bracket, leaf,
    bind, Except.bind, Option.elim_none, reduceCtorEq, false_and]
  rfl

/-- The rule for times between two bounds, of which one may be missing. -/
def timeRule (column : Bytes) (begin_ end_ : Option Int64) : LeafRule :=
  { leafRule column .time with filterBegin := begin_, filterEnd := end_ }

section Lists

variable {list : Parser} {size : Nat} {lower upper : IsoLiteral} {begin_ end_ : Int64}

/-- The first literal of a list, when it does not end at its clock, and the dots behind it. -/
theorem afterLower (bracket : list.lookahead.kind = .lBracket)
    (rest : list.lexer = ⟨size, lower.text ++ (bytes ".." ++ range)⟩)
    (other : ¬lower.EndsAtClock) :
    ∃ (token : Token) (dots : Parser), token.text = lower.text ∧ dots.lexer = ⟨size, range⟩ ∧
      ∀ fuel, list.finishInLeaf strtod fuel column =
        afterToken dots.advance fun upper => some
          (upper.finishRangeUpper strtod column (some token)) := by
  obtain ⟨offset, read⟩ :=
    @next_literal (ascii '.' :: range) size lower (ascii '.') (.inr ⟨rfl, other⟩)
  -- The literal is the first token of the list, and the dots are the second.
  let first : Parser := ⟨⟨size, bytes ".." ++ range⟩, ⟨.ident, lower.text, offset⟩⟩
  let dots : Parser := ⟨⟨size, range⟩, ⟨.dotDot, [], Lexer.position ⟨size, bytes ".." ++ range⟩⟩⟩
  have toFirst : list.advance = .ok first := Parser.advance_eq (by rw [rest]; exact read)
  have toDots : first.advance = .ok dots := Parser.advance_eq (Lexer.next_dotDot range)
  have value : first.isValue = true := rfl
  refine ⟨first.lookahead, dots, rfl, rfl, fun fuel => ?_⟩
  simp only [Parser.finishInLeaf, bracket, if_true, toFirst, afterToken, toDots, value, first, dots,
    reduceCtorEq, if_false]

/-- A literal that ends at its clock leaves a dot that is an error, unless another dot is
behind it. -/
theorem afterClock (bracket : list.lookahead.kind = .lBracket)
    (rest : list.lexer = ⟨size, lower.text ++ (bytes ".." ++ range)⟩)
    (clock : lower.EndsAtClock) (noDot : range.head? ≠ some (ascii '.')) :
    ∃ failed, ∀ fuel, list.finishInLeaf strtod fuel column = some (.error failed) := by
  obtain ⟨token, read, kind⟩ := @next_clock range size lower clock
  obtain ⟨failed, dot⟩ := @Lexer.next_dot size range noDot
  let first : Parser := ⟨⟨size, ascii '.' :: range⟩, token⟩
  have toFirst : list.advance = .ok first := Parser.advance_eq (by rw [rest]; exact read)
  -- The dot that is left starts no token.
  have toDot : first.advance = .error failed := by
    rw [Parser.advance, Parser.withNext, dot]
    rfl
  have noDots : ¬first.lookahead.kind = .dotDot := by simp [first, kind]
  have value : first.isValue = true := by simp [Parser.isValue, Parser.isBound, first, kind]
  refine ⟨failed, fun fuel => ?_⟩
  simp only [Parser.finishInLeaf, bracket, if_true, toFirst, afterToken, if_neg noDots,
    value, toDot]

/-- A range from one literal to another. -/
theorem parseQuery_range (strtod : Bytes → Option Double) (column : Bytes)
    (other : ¬lower.EndsAtClock)
    (lowerRead : parseIsoTimestamp lower.text = some begin_)
    (upperRead : parseIsoTimestamp upper.text = some end_)
    (ordered : begin_ ≤ end_) :
    parseQuery strtod (inQuery column (lower.text ++ (bytes ".." ++ (upper.text ++ bytes "]")))) =
      some (.ok (.leaf (timeRule column (some begin_) (some end_)))) := by
  obtain ⟨list, bracket, rest, finished, -⟩ :=
    parseQuery_inQuery strtod column (lower.text ++ (bytes ".." ++ (upper.text ++ bytes "]")))
  obtain ⟨token, dots, text, behindDots, leaf⟩ :=
    @afterLower strtod column _ list _ lower bracket rest other
  obtain ⟨offset, read⟩ := @next_literal [] dots.lexer.size upper (ascii ']') (.inl rfl)
  let last : Parser := ⟨⟨dots.lexer.size, [ascii ']']⟩, ⟨.ident, upper.text, offset⟩⟩
  have toLast : dots.advance = .ok last :=
    Parser.advance_eq (by rw [behindDots] at read ⊢; exact read)
  have firstRead : Parser.classifyBound strtod "range lower bound must be a number or ISO timestamp"
    (some token) =
      .ok (some (.time begin_)) := by
    simp only [Parser.classifyBound, Parser.classify, text, lowerRead]
  -- The bounds are in order, so that the range is no error.
  have inOrder : ¬end_ < begin_ := Int64.not_lt.mpr ordered
  obtain ⟨behind, parsed, ends⟩ :=
    @finishRangeUpper_literal strtod column last dots.lexer.size (some token)
    (some (.time begin_)) end_ (timeRule column (some begin_) (some end_))
      rfl rfl upperRead firstRead
    (by simp only [Parser.rangeLeaf, if_neg inOrder, timeRule])
  -- The leaf is finished, and the query ends behind it.
  exact finished _ behind (fun fuel => by rw [leaf, toLast, afterToken, parsed]) ends

/-- A range from a literal on. -/
theorem parseQuery_from (strtod : Bytes → Option Double) (column : Bytes)
    (other : ¬lower.EndsAtClock)
    (lowerRead : parseIsoTimestamp lower.text = some begin_) :
    parseQuery strtod (inQuery column (lower.text ++ (bytes ".." ++ bytes "]"))) =
      some (.ok (.leaf (timeRule column (some begin_) none))) := by
  -- The range has a lower bound and two dots, and no upper bound.
  obtain ⟨list, bracket, rest, finished, -⟩ :=
    parseQuery_inQuery strtod column (lower.text ++ (bytes ".." ++ bytes "]"))
  obtain ⟨token, dots, text, behindDots, leaf⟩ :=
    @afterLower strtod column _ list _ lower bracket rest other
  let last : Parser := ⟨⟨dots.lexer.size, []⟩,
    ⟨.rBracket, [], Lexer.position ⟨dots.lexer.size, [ascii ']']⟩⟩⟩
  have toLast : dots.advance = .ok last :=
    Parser.advance_eq (by rw [behindDots]; exact Lexer.next_single rfl (by decide) rfl)
  -- The lower bound is an instant, so the bracket closes the range.
  have firstRead : Parser.classifyBound strtod "range lower bound must be a number or ISO timestamp"
    (some token) =
      .ok (some (.time begin_)) := by
    simp only [Parser.classifyBound, Parser.classify, text, lowerRead]
  obtain ⟨behind, parsed, ends⟩ :=
    @finishRangeUpper_bracket strtod column last dots.lexer.size token
    (some (.time begin_)) (timeRule column (some begin_) none) rfl rfl firstRead rfl
  exact finished _ behind (fun fuel => by rw [leaf, toLast, afterToken, parsed]) ends

/-- A range up to a literal. -/
theorem parseQuery_to (strtod : Bytes → Option Double) (column : Bytes)
    (upperRead : parseIsoTimestamp upper.text = some end_) :
    parseQuery strtod (inQuery column (bytes ".." ++ (upper.text ++ bytes "]"))) =
      some (.ok (.leaf (timeRule column none (some end_)))) := by
  obtain ⟨list, bracket, rest, finished, -⟩ :=
    parseQuery_inQuery strtod column (bytes ".." ++ (upper.text ++ bytes "]"))
  -- The dots are the first token of the list.
  let dots : Parser := ⟨⟨list.lexer.size, upper.text ++ bytes "]"⟩,
    ⟨.dotDot, [], Lexer.position ⟨list.lexer.size, bytes ".." ++ (upper.text ++ bytes "]")⟩⟩⟩
  obtain ⟨offset, read⟩ := @next_literal [] list.lexer.size upper (ascii ']') (.inl rfl)
  let last : Parser := ⟨⟨list.lexer.size, [ascii ']']⟩, ⟨.ident, upper.text, offset⟩⟩
  have toDots : list.advance = .ok dots :=
    Parser.advance_eq (by rw [rest]; exact Lexer.next_dotDot _)
  have toLast : dots.advance = .ok last := Parser.advance_eq read
  obtain ⟨behind, parsed, ends⟩ :=
    @finishRangeUpper_literal strtod column last list.lexer.size none none end_
    (timeRule column none (some end_)) rfl rfl upperRead rfl rfl
  refine finished _ behind (fun fuel => ?_) ends
  simp only [Parser.finishInLeaf, bracket, if_true, toDots, afterToken, dots, toLast, parsed]

end Lists

end Queries

/-- The text is as long as a date with hours and minutes, or has seconds behind these and
then ends. -/
def endsAtClock (text : Bytes) : Bool :=
  text.length = 16 || (text.length = 19 && (text.drop 16).head? == some (ascii ':'))

/-- The seconds of a clock, with the colon in front. -/
def IsoClock.secondsText (clock : IsoClock) : Bytes :=
  clock.second.elim [] fun second => ascii ':' :: paddedDecimal 2 second

/-- What is behind the clock of a time. -/
def IsoTime.behindClock (time : IsoTime) : Bytes :=
  time.fraction.elim [] IsoFraction.text ++ time.zone.elim [] IsoZone.text

/-- Nothing is behind a clock without a fraction and a zone. -/
theorem IsoTime.behindClock_eq_nil (time : IsoTime) :
    time.behindClock = [] ↔ time.fraction = none ∧ time.zone = none := by
  unfold IsoTime.behindClock
  constructor
  · intro nothing
    -- Neither part is written, and each part that is there is written with a byte at least.
    obtain ⟨noFraction, noZone⟩ := List.append_eq_nil_iff.mp nothing
    constructor
    · cases hasFraction : time.fraction with
      | none => rfl
      | some fraction =>
        rw [hasFraction] at noFraction
        cases noFraction
    · rcases hasZone : time.zone with _ | ⟨_ | zone⟩
      · rfl
      all_goals
        rw [hasZone] at noZone
        cases noZone
  · rintro ⟨noFraction, noZone⟩
    rw [noFraction, noZone]
    rfl

/-- Behind hours and minutes are the seconds, and then what is behind the clock. -/
theorem IsoLiteral.drop_text {literal : IsoLiteral} {time : IsoTime}
    (hasTime : literal.time = some time) :
    16 ≤ literal.text.length ∧ literal.text.drop 16 = time.clock.secondsText ++
      time.behindClock := by
  obtain ⟨dateShape, behindDate⟩ := @hasIsoDateShape_text [] literal
  obtain ⟨clockShape, behindMinutes⟩ := @hasIsoClockShape_text time.behindClock time.clock
  rw [List.append_nil] at dateShape behindDate
  rw [hasTime, Option.elim_some, List.append_nil] at behindDate
  have dateLength : 10 ≤ literal.text.length := by
    simp only [hasIsoDateShape, Bool.and_eq_true, decide_eq_true_eq] at dateShape
    exact dateShape.1.1.1.1.1
  have clockLength : 5 ≤ (time.clock.text ++ time.behindClock).length := by
    simp only [hasIsoClockShape, Bool.and_eq_true, decide_eq_true_eq] at clockShape
    exact clockShape.1.1.1
  have timeText : time.text = time.separator :: (time.clock.text ++ time.behindClock) := rfl
  -- Ten bytes of a date, a separator, and five of a clock.
  have lengths := congrArg List.length behindDate
  rw [timeText, List.length_cons, List.length_drop] at lengths
  refine ⟨by omega, ?_⟩
  calc literal.text.drop 16
      = (literal.text.drop 10).drop 6 := by rw [List.drop_drop]
    _ = time.clock.secondsText ++ time.behindClock := by
        rw [behindDate, timeText, List.drop_succ_cons]
        exact behindMinutes

/-- The text says whether a literal ends at its clock. -/
theorem endsAtClock_iff (literal : IsoLiteral) :
    endsAtClock literal.text = true ↔ literal.EndsAtClock := by
  cases hasTime : literal.time with
  | none =>
    -- A date alone is too short.
    obtain ⟨-, behindDate⟩ := @hasIsoDateShape_text [] literal
    have lengths := congrArg List.length behindDate
    rw [hasTime, List.append_nil, List.append_nil, List.length_drop, Option.elim_none,
      List.length_nil] at lengths
    have short : endsAtClock literal.text = false := by
      simp only [endsAtClock, Bool.or_eq_false_iff, Bool.and_eq_false_iff, decide_eq_false_iff_not]
      omega
    rw [short]
    exact ⟨nofun, fun ⟨time, other, _⟩ => absurd (hasTime.symm.trans other) nofun⟩
  | some time =>
    obtain ⟨long, behind⟩ := IsoLiteral.drop_text hasTime
    have lengths := congrArg List.length behind
    rw [List.length_drop, List.length_append] at lengths
    -- What is behind the clock is no second.
    have noColon : time.behindClock.head? ≠ some (ascii ':') :=
      head_behindClock time.fraction time.zone
    have bare : literal.EndsAtClock ↔ time.behindClock = [] :=
      ⟨fun ⟨found, same, clock⟩ =>
        time.behindClock_eq_nil.mpr (Option.some.inj (hasTime.symm.trans same) ▸ clock),
        fun nothing => ⟨time, hasTime, time.behindClock_eq_nil.mp nothing⟩⟩
    rw [bare]
    simp only [endsAtClock, behind, Bool.or_eq_true, Bool.and_eq_true, decide_eq_true_eq,
      beq_iff_eq]
    cases hasSecond : time.clock.second with
    | none =>
      -- Sixteen bytes are there, and any more belong to a fraction or a zone.
      have noSeconds : time.clock.secondsText = [] := by rw [IsoClock.secondsText, hasSecond]; rfl
      rw [noSeconds, List.length_nil] at lengths
      rw [noSeconds, List.nil_append, ← List.length_eq_zero_iff]
      constructor
      · rintro (short | ⟨-, colon⟩)
        · omega
        · exact absurd colon noColon
      · intro nothing
        exact .inl (by omega)
    | some second =>
      have small := (lt_of_isIsoClock time.clock.ok).2.2
      rw [hasSecond, Option.getD_some] at small
      obtain ⟨tens, ones, written, -⟩ := two_digits small
      -- Nineteen bytes are there, of which the last three are the second.
      have seconds : time.clock.secondsText = [ascii ':', tens, ones] := by
        rw [IsoClock.secondsText, hasSecond, Option.elim_some, written]
      rw [seconds, List.length_cons, List.length_cons, List.length_singleton] at lengths
      rw [seconds, ← List.length_eq_zero_iff]
      constructor
      · rintro (short | ⟨exact_, -⟩) <;> omega
      · intro nothing
        exact .inr ⟨by omega, rfl⟩

/-- A range of times is parsed as it is written exactly when the literal in front of the dots does
not end at its clock. What is behind the dots may be any literal. -/
theorem timeRange_parsed_iff (strtod : Bytes → Option Double) (column lower upper : Bytes)
    (begin_ end_ : Int64)
    (lowerRead : parseIsoTimestamp lower = some begin_)
    (upperRead : parseIsoTimestamp upper = some end_)
    (ordered : begin_ ≤ end_) :
    (parseQuery strtod (inQuery column (lower ++ (bytes ".." ++ (upper ++ bytes "]")))) =
        some (.ok (.leaf (timeRule column (some begin_) (some end_)))) ↔
          endsAtClock lower = false) ∧
      (parseQuery strtod (inQuery column (lower ++ (bytes ".." ++ bytes "]"))) =
        some (.ok (.leaf (timeRule column (some begin_) none))) ↔ endsAtClock lower = false) ∧
      parseQuery strtod (inQuery column (bytes ".." ++ (upper ++ bytes "]"))) =
        some (.ok (.leaf (timeRule column none (some end_)))) := by
  obtain ⟨lower, rfl, -⟩ := (parseIsoTimestamp_eq_some _ _).mp lowerRead
  obtain ⟨upper, rfl, -⟩ := (parseIsoTimestamp_eq_some _ _).mp upperRead
  -- At a clock, neither spelling is parsed at all.
  have fails : ∀ range : Bytes, range.head? ≠ some (ascii '.') → endsAtClock lower.text = true →
      ∃ failed, parseQuery strtod (inQuery column (lower.text ++ (bytes ".." ++ range))) =
        some (.error failed) := by
    intro range noDot clock
    obtain ⟨list, bracket, rest, -, failing⟩ :=
      parseQuery_inQuery strtod column (lower.text ++ (bytes ".." ++ range))
    obtain ⟨failed, failure⟩ :=
      @afterClock strtod column range list _ lower bracket rest
        ((endsAtClock_iff lower).mp clock) noDot
    exact ⟨failed, failing failed failure⟩
  have other : endsAtClock lower.text = false → ¬lower.EndsAtClock := fun plain clock => by
    rw [(endsAtClock_iff lower).mpr clock] at plain
    cases plain
  refine ⟨⟨fun parsed => ?_, fun plain =>
    parseQuery_range strtod column (other plain) lowerRead upperRead ordered⟩,
    ⟨fun parsed => ?_, fun plain => parseQuery_from strtod column (other plain) lowerRead⟩,
    parseQuery_to strtod column upperRead⟩
  · by_contra clock
    -- The other literal starts with a digit, so only one dot is left.
    have noDot : (upper.text ++ bytes "]").head? ≠ some (ascii '.') := by
      obtain ⟨head, tail, written, digit⟩ := head_literal upper
      rw [written]
      intro dot
      obtain rfl : head = ascii '.' := Option.some.inj dot
      exact absurd digit (by decide)
    obtain ⟨failed, failure⟩ := fails _ noDot (Bool.not_eq_false _ ▸ clock)
    rw [failure] at parsed
    cases parsed
  · by_contra clock
    obtain ⟨failed, failure⟩ := fails (bytes "]") (by decide) (Bool.not_eq_false _ ▸ clock)
    rw [failure] at parsed
    cases parsed

/-- Whole days are parsed: their literals have no clock. -/
theorem timeRange_parsed_days :
    parseQuery (fun _ => none)
      (inQuery (bytes "ts") (bytes "2024-01-01" ++
        (bytes ".." ++ (bytes "2024-01-02" ++ bytes "]")))) =
      some (.ok (.leaf (timeRule (bytes "ts") (some 1704067200000000) (some 1704153600000000)))) :=
  (timeRange_parsed_iff (fun _ => none) (bytes "ts") (bytes "2024-01-01")
    (bytes "2024-01-02") 1704067200000000
    1704153600000000 (by decide +kernel) (by decide +kernel) (by decide)).1.mpr rfl

/-- The seconds of the first literal swallow a dot of the two. -/
theorem timeRange_of_seconds :
    parseIsoTimestamp (bytes "2024-01-01T00:00:00") = some 1704067200000000 ∧
      parseIsoTimestamp (bytes "2024-01-02T00:00:00") = some 1704153600000000 ∧
      parseQuery (fun _ => none) (bytes "ts IN [2024-01-01T00:00:00..2024-01-02T00:00:00]") =
        some (.error { offset := 27, message := bytes "unexpected character '.'" }) := by
  exact ⟨by decide +kernel, by decide +kernel, rfl⟩

end Loglib.Query
