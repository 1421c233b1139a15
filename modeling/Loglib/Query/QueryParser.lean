import Loglib.App.LeafRuleCompile
import Loglib.Query.QueryLexer

/-! The descent parser of the query language, which builds filter trees. -/

namespace Loglib.Query

/-- The next double above, for `std::nextafter` towards infinity. -/
def nextUp (value : Double) : Double :=
  if value.isNaN ∨ value = Double.posInf then value
  else if value.magnitude = 0 then ⟨1⟩
  else if value.negative then ⟨value.bits - 1⟩ else ⟨value.bits + 1⟩

/-- The next double below, for `std::nextafter` towards negative infinity. -/
def nextDown (value : Double) : Double :=
  if value.isNaN ∨ value = Double.negInf then value
  else if value.magnitude = 0 then Double.ofSignMagnitude true 1
  else if value.negative then ⟨value.bits + 1⟩ else ⟨value.bits - 1⟩

/-- `EqualsIgnoreCaseAscii` with a reserved word, or a byte that no identifier has. -/
def needsQuoting (text : Bytes) : Bool :=
  !text.head?.any isIdentStart || !text.all isIdentChar ||
    keywords.any fun (keyword, _) => equalsIgnoreCaseAscii text keyword

/-- `QuoteString`. -/
def quoteString (text : Bytes) : Bytes := quotationMark :: (escapeText text ++ [quotationMark])

/-- `FormatIdent`. -/
def formatIdent (text : Bytes) : Bytes := if needsQuoting text then quoteString text else text

/-- The parser's token, and the scanner behind it. -/
structure Parser where
  lexer : Lexer
  lookahead : Token
deriving DecidableEq, Repr

/-- What a part of the parser returns: an error, or a tree and the parser behind it. -/
abbrev Parsed := Except QueryParseError (FilterExpression × Parser)

/-- A leaf rule without payload. -/
def leafRule (columnKey : Bytes) (type : LeafRuleType) : LeafRule :=
  { type, columnKeys := [columnKey], matchType := none, filterString := none,
    filterBegin := none, filterEnd := none,
    filterMinValue := none, filterMaxValue := none, filterValues := [] }

section Leaves

namespace Parser

variable (parser : Parser)

/-- The parser behind the next token. -/
def withNext (scanned : Except QueryParseError (Token × Lexer)) : Except QueryParseError Parser :=
  scanned.map fun (token, lexer) => { lexer, lookahead := token }

/-- `Advance`. -/
def advance : Except QueryParseError Parser := withNext parser.lexer.next

/-- `AdvanceRegex`. -/
def advanceRegex : Except QueryParseError Parser := withNext parser.lexer.nextRegex

/-- An error at the token. -/
def failHere {α : Type} (message : String) : Except QueryParseError α :=
  .error { offset := parser.lookahead.offset, message := bytes message }

/-- A leaf, with the parser behind the token. -/
def leafBehind (rule : LeafRule) : Parsed := do
  let behind ← parser.advance
  return (.leaf rule, behind)

/-- The token is a value without a keyword. -/
def isBound : Bool := [TokenKind.number, .ident, .quoted].contains parser.lookahead.kind

/-- The token is a boolean keyword. -/
def isBool : Bool := [TokenKind.true_, .false_].contains parser.lookahead.kind

/-- The token is a value. -/
def isValue : Bool := parser.isBound || parser.isBool

/-- `FinishStringLeaf`. -/
def finishStringLeaf (columnKey : Bytes) (matchType : LeafRuleMatch) : Parsed :=
  if parser.isValue then
    parser.leafBehind { leafRule columnKey .string with
      matchType := some matchType, filterString := some parser.lookahead.text }
  else parser.failHere "expected a value after ':' operator"

/-- The leaf for a wildcard pattern. -/
def finishWildcardLeaf (columnKey : Bytes) : Parsed :=
  if parser.lookahead.kind = .quoted ∨ parser.lookahead.kind = .ident then
    parser.leafBehind { leafRule columnKey .string with
      matchType := some .wildcard, filterString := some parser.lookahead.text }
  else parser.failHere "expected a pattern after '%' (wildcard operator)"

/-- The leaf for a regular expression. -/
def finishRegexLeaf (columnKey : Bytes) : Parsed :=
  if parser.lookahead.kind = .regex then
    parser.leafBehind { leafRule columnKey .string with
      matchType := some .regularExpression, filterString := some parser.lookahead.text }
  else parser.failHere "expected a regex literal '/.../' after '~'"

end Parser

/-- What follows a token, when there is one. -/
def afterToken (scanned : Except QueryParseError Parser) (continue_ : Parser → Option Parsed) :
    Option Parsed :=
  match scanned with
  | .error failed => some (.error failed)
  | .ok parser => continue_ parser

/-- What follows a tree, when there is one. -/
def afterTree (parsed : Option Parsed) (continue_ : FilterExpression → Parser → Option Parsed) :
    Option Parsed :=
  match parsed with
  | none => none
  | some (.error failed) => some (.error failed)
  | some (.ok (tree, parser)) => continue_ tree parser

section Numbers

variable (strtod : Bytes → Option Double)

/-- `ParseDouble`: what `std::strtod` makes of the whole text, but for white space in front,
hexadecimal digits and zero bytes. -/
def parseDouble (text : Bytes) : Option Double :=
  if text = [] ∨ text.head?.any isSpace then none
  else if text.head? = some (ascii '0') ∧
    (text[1]? = some (ascii 'x') ∨ text[1]? = some (ascii 'X')) then none
  else if text.contains 0 then none
  else strtod text

namespace Parser

variable (parser : Parser)

/-- `FinishEqLeaf`: the value decides the type of the leaf. -/
def finishEqLeaf (columnKey : Bytes) : Parsed :=
  match parser.lookahead.kind with
  -- The type of the leaf follows from the value.
  | .quoted | .ident =>
    parser.leafBehind { leafRule columnKey .string with
      matchType := some .exactly, filterString := some parser.lookahead.text }
  | .number =>
    match parseDouble strtod parser.lookahead.text with
    | some value =>
      parser.leafBehind { leafRule columnKey .number with
        filterMinValue := some value
        filterMaxValue := some value }
    | none => parser.failHere "invalid numeric literal"
  | .true_ => parser.leafBehind { leafRule columnKey .boolean with filterValues := [bytes "true"] }
  | .false_ =>
    parser.leafBehind { leafRule columnKey .boolean with filterValues := [bytes "false"] }
  | _ => parser.failHere "expected a value after '=' operator"

/-- The one-sided range of times for a comparison. -/
def compareTime (columnKey : Bytes) (operator : TokenKind) (time : Int64) : LeafRule :=
  let rule := leafRule columnKey .time
  match operator with
  | .gt => { rule with filterBegin := some (time + 1) }
  | .gtEq => { rule with filterBegin := some time }
  | .lt => { rule with filterEnd := some (time - 1) }
  | .ltEq => { rule with filterEnd := some time }
  | _ => rule

/-- The one-sided range of numbers for a comparison. -/
def compareNumber (columnKey : Bytes) (operator : TokenKind) (number : Double) : LeafRule :=
  let rule := leafRule columnKey .number
  match operator with
  | .gt => { rule with filterMinValue := some (nextUp number) }
  | .gtEq => { rule with filterMinValue := some number }
  | .lt => { rule with filterMaxValue := some (nextDown number) }
  | .ltEq => { rule with filterMaxValue := some number }
  | _ => rule

/-- `FinishCompareLeaf`: a literal is a time before it is a number. The error is at the operator. -/
def finishCompareLeaf (columnKey : Bytes) (operator : Token) : Parsed :=
  if parser.isBound then do
    let behind ← parser.advance
    match parseIsoTimestamp parser.lookahead.text, parseDouble strtod parser.lookahead.text with
    | some time, _ => return (.leaf (compareTime columnKey operator.kind time), behind)
    | none, some number => return (.leaf (compareNumber columnKey operator.kind number), behind)
    | none, none =>
      .error { offset := operator.offset
               message := bytes "comparison operator expects a number or ISO timestamp" }
  else parser.failHere "expected a value after comparison operator"

/-- A bound of a range, by its type. -/
inductive RangeBound where
  | time (value : Int64)
  | number (value : Double)

/-- `classify`. -/
def classify (token : Token) : Option RangeBound :=
  match parseIsoTimestamp token.text, parseDouble strtod token.text with
  | some time, _ => some (.time time)
  | none, some number => some (.number number)
  | none, none => none

/-- The bound of a token, or the error at the token. -/
def classifyBound (message : String) : Option Token → Except QueryParseError (Option RangeBound)
  | none => .ok none
  | some token =>
    match classify strtod token with
    | some bound => .ok (some bound)
    | none => .error { offset := token.offset, message := bytes message }

/-- The leaf for two bounds of one type, of which the second one is not below the first. -/
def rangeLeaf (columnKey : Bytes) (secondOffset : Nat) : Option RangeBound → Option RangeBound →
    Except QueryParseError LeafRule
  -- Two bounds of different kinds are refused before they are compared.
  | some (.time _), some (.number _) | some (.number _), some (.time _) =>
    .error { offset := secondOffset
             message := bytes "range bounds must both be numeric or both be ISO timestamps" }
  | some (.time first), some (.time second) =>
    if second < first then .error
      { offset := secondOffset, message := bytes "range upper bound is below the lower bound" }
    else .ok { leafRule columnKey .time with filterBegin := some first, filterEnd := some second }
  | some (.time first), none => .ok { leafRule columnKey .time with filterBegin := some first }
  | none, some (.time second) => .ok { leafRule columnKey .time with filterEnd := some second }
  | some (.number first), some (.number second) =>
    if second.lt first then .error
      { offset := secondOffset, message := bytes "range upper bound is below the lower bound" }
    else .ok { leafRule columnKey .number with
      filterMinValue := some first
      filterMaxValue := some second }
  | some (.number first), none =>
    .ok { leafRule columnKey .number with filterMinValue := some first }
  | none, some (.number second) =>
    .ok { leafRule columnKey .number with filterMaxValue := some second }
  | none, none => .ok (leafRule columnKey .number)

/-- The range for the tokens on both sides of the dots, at the bracket that closes it. -/
def closeRange (columnKey : Bytes) (firstTok secondTok : Option Token) : Parsed :=
  if parser.lookahead.kind ≠ .rBracket then parser.failHere "expected ']' to close range"
  else if firstTok = none ∧
    secondTok = none then parser.failHere "range needs at least a lower or an upper bound"
  else do
    let behind ← parser.advance
    let first ← classifyBound strtod "range lower bound must be a number or ISO timestamp" firstTok
    let second ← classifyBound strtod "range upper bound must be a number or ISO timestamp"
      secondTok
    let rule ← rangeLeaf columnKey (secondTok.elim 0 Token.offset) first second
    return (.leaf rule, behind)

/-- `FinishRangeUpper`, behind the two dots. -/
def finishRangeUpper (columnKey : Bytes) (firstTok : Option Token) : Parsed :=
  if parser.isBound then do
    let closing ← parser.advance
    closing.closeRange strtod columnKey firstTok (some parser.lookahead)
  else parser.closeRange strtod columnKey firstTok none

/-- The leaf for the values of a list. -/
def listLeaf (columnKey : Bytes) (allBool : Bool) (filterValues : List Bytes) : LeafRule :=
  if allBool then { leafRule columnKey .boolean with
    filterValues := filterValues.map (·.map foldAscii) }
  else
    match filterValues with
    | [only] =>
      -- A single value has the type that its text has.
      match parseIsoTimestamp only, parseDouble strtod only with
      | some time, _ =>
        { leafRule columnKey .time with filterBegin := some time, filterEnd := some time }
      | none, some number =>
        { leafRule columnKey .number with
          filterMinValue := some number
          filterMaxValue := some number }
      | none, none => { leafRule columnKey .enumeration with filterValues := [only] }
    | values => { leafRule columnKey .enumeration with filterValues := values }

/-- The rest of a list, and the parser behind it. A step is a value. -/
def listTail (columnKey : Bytes) (fuel : Nat) (allBool : Bool) (filterValues : List Bytes)
    (parser : Parser) : Option Parsed :=
  match fuel with
  | 0 => none
  | fuel + 1 =>
    -- A comma asks for another value, a bracket ends the list.
    if parser.lookahead.kind = .comma then
      afterToken parser.advance fun value =>
        if value.isValue then
          afterToken value.advance
            (listTail columnKey fuel (allBool && value.isBool)
              (filterValues ++ [value.lookahead.text]))
        else some (value.failHere "expected a value after ','")
    else if parser.lookahead.kind = .rBracket then
      some (parser.leafBehind (listLeaf strtod columnKey allBool filterValues))
    else some (parser.failHere "expected ']' or ',' to continue 'in [...]' list")

/-- `FinishInLeaf`: a range when two dots are behind the bracket or behind the first value, and a
list otherwise. -/
def finishInLeaf (fuel : Nat) (columnKey : Bytes) : Option Parsed :=
  if parser.lookahead.kind = .lBracket then
    afterToken parser.advance fun first =>
      -- A range without a lower bound.
      if first.lookahead.kind = .dotDot then
        afterToken first.advance fun upper => some (upper.finishRangeUpper strtod columnKey none)
      else if first.isValue then
        afterToken first.advance fun behind =>
          -- The token behind the first value tells a range from a list.
          if behind.lookahead.kind = .dotDot then
            afterToken behind.advance fun upper =>
              some (upper.finishRangeUpper strtod columnKey (some first.lookahead))
          else listTail strtod columnKey fuel first.isBool [first.lookahead.text] behind
      else if first.lookahead.kind = .rBracket then
        some (first.failHere "value list cannot be empty")
      else some (first.failHere "expected a value or ']' inside 'in [...]'")
  else some (parser.failHere "expected '[' to open value list after 'in'")

/-- `ParseLeaf`: a column, an operator and what this one takes. -/
def parseLeaf (fuel : Nat) : Option Parsed :=
  if parser.lookahead.kind = .ident ∨ parser.lookahead.kind = .quoted then
    let columnKey := parser.lookahead.text
    afterToken parser.advance fun op =>
      match op.lookahead.kind with
      | .colon =>
        afterToken op.advance fun value => some (value.finishStringLeaf columnKey .contains)
      | .eq => afterToken op.advance fun value => some (value.finishEqLeaf strtod columnKey)
      | .tilde => afterToken op.advanceRegex fun value => some (value.finishRegexLeaf columnKey)
      | .percent => afterToken op.advance fun value => some (value.finishWildcardLeaf columnKey)
      | .gt | .gtEq | .lt | .ltEq =>
        afterToken op.advance fun value =>
          some (value.finishCompareLeaf strtod columnKey op.lookahead)
      | .kwIn => afterToken op.advance fun list => list.finishInLeaf strtod fuel columnKey
      | .kwNot =>
        -- The column is in front of the negation, which is around the leaf.
        afterToken op.advance fun in_ =>
          if in_.lookahead.kind = .kwIn then
            afterToken in_.advance fun list =>
              afterTree (list.finishInLeaf strtod fuel columnKey) fun tree behind =>
                some (.ok (.not (some tree), behind))
          else some (in_.failHere "expected 'IN' after 'NOT' in leaf position")
      | _ =>
        some (op.failHere "expected an operator after the column name (':', '=', '~', '%', '<', '>', 'in')")
  else some (parser.failHere "expected a column name to start the leaf")

/-- `ParseAtom`: a group, for which the whole grammar is used again, or a leaf. -/
def parseAtom (parseOr : Parser → Option Parsed) (fuel : Nat) : Option Parsed :=
  if parser.lookahead.kind = .lParen then
    afterToken parser.advance fun inner =>
      afterTree (parseOr inner) fun tree closing =>
        if closing.lookahead.kind = .rParen then afterToken closing.advance fun behind =>
          some (.ok (tree, behind))
        else some (closing.failHere "expected ')' to close group")
  else parser.parseLeaf strtod fuel

/-- `ParseNot`. A step is a negation. -/
def parseNot (parseOr : Parser → Option Parsed) (fuel : Nat) : Nat → Parser → Option Parsed
  | 0, _ => none
  | steps + 1, parser =>
    if parser.lookahead.kind = .kwNot then
      afterToken parser.advance fun inner =>
        afterTree (parseNot parseOr fuel steps inner) fun tree behind => some
          (.ok (.not (some tree), behind))
    else parser.parseAtom strtod parseOr fuel

/-- The token starts an operand of a conjunction without a keyword. -/
def startsAtom : Bool := [TokenKind.ident, .quoted, .kwNot, .lParen].contains parser.lookahead.kind

/-- One child stands for itself. -/
def joined (join : List FilterExpression → FilterExpression) :
    List FilterExpression → FilterExpression
  | [only] => only
  | children => join children

/-- The loop of `ParseAnd`. A step is an operand. -/
def andTail (operand : Parser → Option Parsed) :
    Nat → List FilterExpression → Parser → Option Parsed
  | 0, _, _ => none
  | steps + 1, children, parser =>
    if parser.lookahead.kind = .kwAnd then
      afterToken parser.advance fun next =>
        afterTree (operand next) fun tree => andTail operand steps (children ++ [tree])
    else if parser.startsAtom then
      afterTree (operand parser) fun tree => andTail operand steps (children ++ [tree])
    else some (.ok (joined .and children, parser))

/-- The loop of `ParseOr`. A step is an operand. -/
def orTail (operand : Parser → Option Parsed) : Nat → List FilterExpression → Parser → Option Parsed
  | 0, _, _ => none
  | steps + 1, children, parser =>
    if parser.lookahead.kind = .kwOr then
      afterToken parser.advance fun next =>
        afterTree (operand next) fun tree => orTail operand steps (children ++ [tree])
    else some (.ok (joined .or children, parser))

/-- `ParseAnd`. -/
def parseAnd (parseOr : Parser → Option Parsed) (fuel : Nat) : Option Parsed :=
  let operand := parseNot strtod parseOr fuel fuel
  afterTree (operand parser) fun tree => andTail operand fuel [tree]

/-- `ParseOr`. A step is a group around the part that is parsed, and bounds the loops in it. -/
def parseOr : Nat → Parser → Option Parsed
  | 0, _ => none
  | fuel + 1, parser =>
    let operand := fun parser : Parser => parser.parseAnd strtod (parseOr fuel) fuel
    afterTree (operand parser) fun tree => orTail operand fuel [tree]

end Parser

/-- `ParseQuery`. No part of a query has more steps than bytes. -/
def parseQuery (input : Bytes) : Option (Except QueryParseError FilterExpression) :=
  match Parser.withNext (Lexer.next { size := input.length, rest := input }) with
  | .error failed => some (.error failed)
  | .ok parser =>
    -- An empty query matches everything.
    if parser.lookahead.kind = .end_ then some (.ok (.and []))
    else
      match Parser.parseOr strtod (input.length + 2) parser with
      | none => none
      | some (.error failed) => some (.error failed)
      | some (.ok (tree, behind)) =>
        if behind.lookahead.kind = .end_ then some (.ok tree)
        else some (behind.failHere "unexpected trailing tokens after expression")

end Numbers

end Leaves

end Loglib.Query
