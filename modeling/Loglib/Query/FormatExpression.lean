import Loglib.Query.TimeRanges

/-! The printer of the query language: filter trees as texts of the grammar, and the trees that
these texts are read as. -/

namespace Loglib

/-- The `==` of `double`: zeros of both signs are equal, and NaN is equal to nothing. -/
def Double.sameValue (first second : Double) : Bool :=
  !first.isNaN && !second.isNaN && first.order == second.order

namespace FilterExpression

/-- `IsMatchAll`. -/
def isMatchAll : FilterExpression → Bool
  | .and children => children.isEmpty
  | _ => false

end FilterExpression

namespace Query

/-- `Precedence`, from the loosest one. -/
inductive Precedence where
  | or
  | and
  | not
  | atom
deriving DecidableEq, Repr

/-- The place of a precedence in their order. -/
def Precedence.rank : Precedence → Nat
  | .or => 0
  | .and => 1
  | .not => 2
  | .atom => 3

section Leaves

/-- A range by its bounds: a comparison where one is missing, and a placeholder where both are. -/
def appendBounds {α : Type} (write : α → Bytes) : Option α → Option α → Bytes
  | some first, some second =>
    bytes " IN [" ++ (write first ++ (bytes ".." ++ (write second ++ bytes "]")))
  | some first, none => bytes ">=" ++ write first
  | none, some second => bytes "<=" ++ write second
  | none, none => bytes " IN []"

/-- The body of a regular expression, with its slashes escaped. -/
def escapeSlashes (body : Bytes) : Bytes :=
  body.flatMap fun ch => if ch = ascii '/' then [escapeMark, ascii '/'] else [ch]

variable (formatNumber : Double → Bytes)

/-- What is behind the column of a leaf for texts. -/
def appendString (value : Bytes) : LeafRuleMatch → Bytes
  | .contains => bytes ":" ++ formatIdent value
  | .exactly => bytes "=" ++ quoteString value
  | .regularExpression => bytes "~/" ++ (escapeSlashes value ++ bytes "/")
  | .wildcard => bytes "%" ++ quoteString value

/-- What is behind the column of a leaf for numbers. Two bounds of one value are an equation. -/
def appendNumber (filterMinValue filterMaxValue : Option Double) : Bytes :=
  match filterMinValue, filterMaxValue with
  | some first, some second =>
    if first.sameValue second then bytes "=" ++ formatNumber first
      else appendBounds formatNumber (some first) (some second)
  | first, second => appendBounds formatNumber first second

/-- What is behind the column of a leaf for booleans. -/
def appendBoolean (filterValues : List Bytes) : Bytes :=
  match spells filterValues "true", spells filterValues "false" with
  | true, true => bytes " IN [true, false]"
  | true, false => bytes "=true"
  | false, true => bytes "=false"
  | false, false => bytes " IN []"

/-- The values of a list behind the first one. -/
def appendValues : List Bytes → Bytes
  | [] => bytes "]"
  | value :: rest => bytes ", " ++ (formatIdent value ++ appendValues rest)

/-- What is behind the column of a leaf for the values of an enumeration. -/
def appendEnumeration : List Bytes → Bytes
  | [] => bytes " IN []"
  | value :: rest => bytes " IN [" ++ (formatIdent value ++ appendValues rest)

/-- `AppendLeaf`. -/
def appendLeaf (rule : LeafRule) : Bytes :=
  rule.columnKeys.head?.elim [] formatIdent ++
    match rule.type with
    | .string => appendString (rule.filterString.getD []) (rule.matchType.getD .contains)
    | .number => appendNumber formatNumber rule.filterMinValue rule.filterMaxValue
    | .time => appendBounds formatTimestampMicros rule.filterBegin rule.filterEnd
    | .boolean => appendBoolean rule.filterValues
    | .enumeration => appendEnumeration rule.filterValues

end Leaves

section Trees

variable (formatNumber : Double → Bytes)

/-- A text in parentheses, when these are needed. -/
def parenthesized (needParens : Bool) (text : Bytes) : Bytes :=
  if needParens then bytes "(" ++ (text ++ bytes ")") else text

mutual

/-- `AppendExpression`, with `AppendAnd`, `AppendOr` and `AppendNot`. Nodes without children have
placeholders. -/
def appendExpression : FilterExpression → Precedence → Bytes
  | .leaf rule, _ => appendLeaf formatNumber rule
  | .and children, parent =>
    -- An empty conjunction is the query for everything.
    if children.isEmpty then bytes "*"
    else parenthesized (Precedence.and.rank < parent.rank)
      (appendChildren children .and (bytes " AND "))
  | .or children, parent =>
    if children.isEmpty then bytes "()"
    else parenthesized (Precedence.or.rank < parent.rank)
      (appendChildren children .or (bytes " OR "))
  | .not none, _ => bytes "NOT " ++ bytes "()"
  | .not (some child), _ => bytes "NOT " ++ appendExpression child .not

/-- The children of a node, with a keyword between them. -/
def appendChildren : List FilterExpression → Precedence → Bytes → Bytes
  | [], _, _ => []
  | child :: rest, precedence, keyword =>
    appendExpression child precedence ++ if rest.isEmpty then []
      else keyword ++ appendChildren rest precedence keyword

end

/-- The tree without the conjunctions of one child around it. -/
def peelAnd : FilterExpression → FilterExpression
  | .and [only] => if only.isMatchAll then .and [only] else peelAnd only
  | expression => expression

/-- The text of a conjunction with children. -/
theorem appendExpression_and {children : List FilterExpression} (some_ : children ≠ [])
    (level : Precedence) :
    appendExpression formatNumber (.and children) level =
      parenthesized (Precedence.and.rank < level.rank)
        (appendChildren formatNumber children .and (bytes " AND ")) := by
  have notEmpty : children.isEmpty = false := by simpa using some_
  rw [appendExpression, notEmpty]
  rfl

/-- The text of a disjunction with children. -/
theorem appendExpression_or {children : List FilterExpression} (some_ : children ≠ [])
    (level : Precedence) :
    appendExpression formatNumber (.or children) level =
      parenthesized (Precedence.or.rank < level.rank)
        (appendChildren formatNumber children .or (bytes " OR ")) := by
  have notEmpty : children.isEmpty = false := by simpa using some_
  rw [appendExpression, notEmpty]
  rfl

/-- `FormatExpression`. -/
def formatExpression (expression : FilterExpression) : Bytes :=
  if expression.isMatchAll then [] else appendExpression formatNumber (peelAnd expression) .or

end Trees

end Query

end Loglib
