import Loglib.Query.QueryParser

/-! Every query is parsed or rejected: each token shortens what is left, so that the steps
suffice. -/

namespace Loglib.Query

section Scanning

variable {text rest : Bytes}

/-- Bytes are only ever skipped. -/
theorem length_dropWhile_le (kind : Byte → Bool) (text : Bytes) :
    (text.dropWhile kind).length ≤ text.length :=
  (List.dropWhile_suffix kind).length_le

/-- A byte of the kind is skipped. -/
theorem length_dropWhile_lt {kind : Byte → Bool} (head : text.head?.any kind = true) :
    (text.dropWhile kind).length < text.length := by
  cases text with
  | nil => cases head
  | cons byte tail =>
    have found : kind byte = true := by simpa using head
    rw [List.dropWhile_cons, found, if_pos rfl, List.length_cons]
    exact Nat.lt_succ_of_le (length_dropWhile_le kind tail)

/-- A sign is skipped, or nothing. -/
theorem length_skipSign_le (text : Bytes) : (skipSign text).length ≤ text.length := by
  unfold skipSign
  split
  · rw [List.length_drop]
    omega
  · exact le_rfl

/-- What is behind a time is not longer than the time. -/
theorem length_skipIsoTime_le (text : Bytes) : (skipIsoTime text).length ≤ text.length := by
  -- Each part of the time is optional, and skipping it makes the text no longer.
  have seconds : ∀ text : Bytes, (skipIsoSeconds text).length ≤ text.length := fun text => by
    unfold skipIsoSeconds
    split <;> simp
  have fraction : ∀ text : Bytes, (skipIsoFraction text).length ≤ text.length := fun text => by
    unfold skipIsoFraction
    split
    · exact (length_dropWhile_le _ _).trans (by simp)
    · exact le_rfl
  have zone : ∀ text : Bytes, (skipIsoZone text).length ≤ text.length := fun text => by
    unfold skipIsoZone
    split_ifs
    · simp
    · exact (length_dropWhile_le _ _).trans (by simp)
    · exact le_rfl
  unfold skipIsoTime
  split_ifs
  · -- The separator, the hour and the minute are skipped first, then the parts.
    exact ((zone _).trans (fraction _)).trans ((seconds _).trans (by simp))
  · exact le_rfl
  · exact le_rfl

/-- A timestamp is at least a date. -/
theorem length_tryLexIsoTimestamp (lexed : tryLexIsoTimestamp text = some rest) :
    rest.length < text.length := by
  simp only [tryLexIsoTimestamp] at lexed
  split_ifs at lexed with shape bleeding
  obtain rfl := Option.some.inj lexed
  -- The shape of a date asks for ten bytes.
  have long : 10 ≤ text.length := by
    simp only [hasIsoDateShape, Bool.and_eq_true, decide_eq_true_eq] at shape
    exact shape.1.1.1.1.1
  have behind := length_skipIsoTime_le (text.drop 10)
  rw [List.length_drop] at behind
  omega

/-- A number has a digit. -/
theorem length_skipNumber (digit : (skipSign text).head?.any isDecimalDigit = true)
    (skipped : skipNumber text = .ok rest) :
    rest.length < text.length := by
  have digits := length_dropWhile_lt digit
  have sign := length_skipSign_le text
  -- The digits in front are the ones that count; a decimal part and an exponent only take more.
  have decimalPart : ∀ text : Bytes, (skipDecimalPart text).length ≤ text.length := fun text => by
    unfold skipDecimalPart
    split
    · exact (length_dropWhile_le _ _).trans (by simp)
    · exact le_rfl
  have number := decimalPart ((skipSign text).dropWhile isDecimalDigit)
  simp only [skipNumber] at skipped
  generalize skipDecimalPart ((skipSign text).dropWhile isDecimalDigit) = behind at skipped number
  split at skipped
  · split at skipped
    · obtain rfl := Except.ok.inj skipped
      have exponent := length_dropWhile_le isDecimalDigit (skipSign (behind.drop 1))
      have exponentSign := length_skipSign_le (behind.drop 1)
      rw [List.length_drop] at exponentSign
      omega
    · cases skipped
  · obtain rfl := Except.ok.inj skipped
    omega

/-- The end of a quoted text is in the text. -/
theorem length_untilMark {inner : Bytes} (found : untilMark text = some (inner, rest)) :
    rest.length < text.length := by
  fun_induction untilMark text generalizing inner rest with
  | case1 => cases found
  | case2 => simp_all
  | case3 => cases found
  -- An escaped byte is passed over with its backslash.
  | case4 next behind ih =>
    obtain ⟨⟨shorter, rest'⟩, read, same⟩ := Option.map_eq_some_iff.mp found
    obtain ⟨-, rfl⟩ := Prod.mk.inj same
    have below := ih read
    simp only [List.length_cons]
    omega
  | case5 next behind => simp_all
  -- A plain byte is passed over.
  | case6 byte next behind escape mark ih =>
    obtain ⟨⟨shorter, rest'⟩, read, same⟩ := Option.map_eq_some_iff.mp found
    obtain ⟨-, rfl⟩ := Prod.mk.inj same
    have below := ih read
    simp only [List.length_cons] at below ⊢
    omega

/-- The end of a regular expression is in the text. -/
theorem length_regexBody {body decoded : Bytes}
    (found : Lexer.regexBody body text = some (decoded, rest)) :
    rest.length < text.length := by
  fun_induction Lexer.regexBody body text with
  | case1 => cases found
  | case2 => simp_all
  | case3 => cases found
  -- An escaped byte is passed over with its backslash.
  | case4 body second behind ih =>
    have below := ih found
    simp only [List.length_cons]
    omega
  | case5 body second behind => simp_all
  -- A plain byte is passed over.
  | case6 body ch second behind escape slash ih =>
    have below := ih found
    simp only [List.length_cons] at below ⊢
    omega

end Scanning

/-- What a token leaves of the input: it has a byte at least, unless it is the end. -/
def Shortens (lexer : Lexer) (scanned : Except QueryParseError (Token × Lexer)) : Prop :=
  ∀ token behind, scanned = .ok (token, behind) →
    behind.rest.length + (if token.kind = .end_ then 0 else 1) ≤ lexer.rest.length

namespace Lexer

variable {lexer : Lexer} {rest : Bytes} {kind : TokenKind}

/-- An error leaves nothing. -/
theorem shortens_failAt (message : Bytes) : Shortens lexer (lexer.failAt rest message) := nofun

/-- A token of a fixed text. -/
theorem shortens_plainToken {length : Nat} (some_ : 0 < length) (visible : 0 < lexer.rest.length) :
    Shortens lexer (lexer.plainToken kind length) := by
  intro token behind scanned
  obtain ⟨rfl, rfl⟩ := Prod.mk.inj (Except.ok.inj scanned)
  simp only [atRest, List.length_drop]
  split <;> omega

/-- A token with its text. -/
theorem shortens_textToken (shorter : rest.length < lexer.rest.length) :
    Shortens lexer (lexer.textToken kind rest) := by
  intro token behind scanned
  obtain ⟨rfl, rfl⟩ := Prod.mk.inj (Except.ok.inj scanned)
  simp only [atRest]
  split <;> omega

/-- A quoted text has its marks. -/
theorem shortens_lexQuoted (lexer : Lexer) : Shortens lexer lexer.lexQuoted := by
  unfold lexQuoted
  split
  · rename_i inner rest found
    -- The opening mark is dropped before the closing one is looked for.
    have shorter := length_untilMark found
    rw [List.length_drop] at shorter
    intro token behind scanned
    obtain ⟨rfl, rfl⟩ := Prod.mk.inj (Except.ok.inj scanned)
    simp only [atRest]
    split <;> omega
  · exact shortens_failAt _

/-- A number or a timestamp. -/
theorem shortens_lexDigits (digit : (skipSign lexer.rest).head?.any isDecimalDigit = true) :
    Shortens lexer lexer.lexDigits := by
  unfold lexDigits
  split
  · rename_i rest lexed
    -- A date is tried before a number.
    exact shortens_textToken (length_tryLexIsoTimestamp lexed)
  · unfold lexNumber
    split
    · rename_i rest skipped
      exact shortens_textToken (length_skipNumber digit skipped)
    · exact shortens_failAt _

/-- An identifier has its first byte. -/
theorem shortens_lexIdent (start : lexer.rest.head?.any isIdentChar = true) :
    Shortens lexer lexer.lexIdent :=
  shortens_textToken (length_dropWhile_lt start)

/-- A token has a byte at least. -/
theorem shortens_lexFrom {ch : Byte} {behind : Bytes} (rest_eq : lexer.rest = ch :: behind) :
    Shortens lexer (lexer.lexFrom ch behind) := by
  have visible : 0 < lexer.rest.length := by simp [rest_eq]
  unfold lexFrom
  split
  · exact shortens_lexQuoted lexer
  · split
    · exact shortens_plainToken (by omega) visible
    · -- The operators of one byte and of two are fixed texts.
      split_ifs with gt eq lt eq' dots ands ors bang digits start
      all_goals first | exact shortens_plainToken (by omega) visible | skip
      · -- Digits, or a sign in front of one.
        refine shortens_lexDigits ?_
        rw [rest_eq]
        rcases digits with digit | ⟨sign, digit⟩
        · -- A digit is no sign.
          have noSign : ¬((ch :: behind).head? = some (ascii '+') ∨
              (ch :: behind).head? = some (ascii '-')) := by
            rintro (plus | minus)
            · obtain rfl : ch = ascii '+' := Option.some.inj plus
              exact absurd digit (by decide)
            · obtain rfl : ch = ascii '-' := Option.some.inj minus
              exact absurd digit (by decide)
          rw [skipSign, if_neg noSign]
          simpa using digit
        · rw [skipSign, if_pos (by simpa using sign)]
          exact digit
      · -- The byte that starts an identifier is one of its bytes.
        refine shortens_lexIdent ?_
        rw [rest_eq]
        have identChar : isIdentChar ch = true := by
          simp only [isIdentStart, Bool.or_eq_true] at start
          simp only [isIdentChar, Bool.or_eq_true]
          rcases start with letter | underscore
          · exact .inl (.inl (.inl (.inl letter)))
          · exact .inl (.inl (.inr underscore))
        simpa using identChar
      · exact shortens_failAt _

/-- The next token shortens what is left. -/
theorem shortens_next (lexer : Lexer) : Shortens lexer lexer.next := by
  have skipped : lexer.skipWhitespace.rest.length ≤ lexer.rest.length :=
    length_dropWhile_le isSpace lexer.rest
  intro token behind scanned
  unfold next at scanned
  dsimp only at scanned
  split at scanned
  · rename_i nothing
    -- At the end there is nothing left to shorten.
    obtain ⟨rfl, rfl⟩ := Prod.mk.inj (Except.ok.inj scanned)
    simp only [atRest, nothing, List.drop_zero, List.length_nil, if_true]
    omega
  · rename_i ch rest rest_eq
    exact (shortens_lexFrom rest_eq token behind scanned).trans skipped

/-- A regular expression shortens what is left. -/
theorem shortens_nextRegex (lexer : Lexer) : Shortens lexer lexer.nextRegex := by
  have skipped : lexer.skipWhitespace.rest.length ≤ lexer.rest.length :=
    length_dropWhile_le isSpace lexer.rest
  intro token behind scanned
  unfold nextRegex at scanned
  dsimp only at scanned
  split at scanned
  · split at scanned
    · rename_i body rest found
      -- The slash that opens it is dropped before the other one is looked for.
      obtain ⟨rfl, rfl⟩ := Prod.mk.inj (Except.ok.inj scanned)
      have shorter := length_regexBody found
      rw [List.length_drop] at shorter
      simp only [atRest, reduceCtorEq, if_false]
      omega
    · cases scanned
  · cases scanned

end Lexer

/-- What is left to parse: the bytes behind the token, and the token, unless it is the end. -/
def Parser.remaining (parser : Parser) : Nat :=
  parser.lexer.rest.length + if parser.lookahead.kind = .end_ then 0 else 1

/-- The parser ends, and a tree that it finds leaves less than a bound. -/
def EndsBelow (bound : Nat) (result : Option Parsed) : Prop :=
  ∃ parsed, result = some parsed ∧ ∀ tree behind, parsed = .ok (tree, behind) →
    behind.remaining < bound

section Combinators

variable {bound : Nat} {parser : Parser}

/-- An error ends. -/
theorem endsBelow_error (failed : QueryParseError) : EndsBelow bound (some (.error failed)) :=
  ⟨_, rfl, nofun⟩

/-- An error at the token ends. -/
theorem endsBelow_failHere (message : String) : EndsBelow bound (some (parser.failHere message)) :=
  ⟨_, rfl, nofun⟩

/-- A tree ends. -/
theorem endsBelow_ok {tree : FilterExpression} (below : parser.remaining < bound) :
    EndsBelow bound (some (.ok (tree, parser))) := by
  refine ⟨_, rfl, fun found behind same => ?_⟩
  obtain ⟨-, rfl⟩ := Prod.mk.inj (Except.ok.inj same)
  exact below

/-- A smaller bound is enough. -/
theorem EndsBelow.mono {larger : Nat} {result : Option Parsed} (ends : EndsBelow bound result)
    (le : bound ≤ larger) :
    EndsBelow larger result := by
  obtain ⟨parsed, same, below⟩ := ends
  exact ⟨parsed, same, fun tree behind found => (below tree behind found).trans_le le⟩

/-- A token is less to parse. -/
theorem remaining_withNext {scanned : Except QueryParseError (Token × Lexer)} {next : Parser}
    (shortens : Shortens parser.lexer scanned) (visible : parser.lookahead.kind ≠ .end_)
    (read : Parser.withNext scanned = .ok next) : next.remaining < parser.remaining := by
  cases scanned with
  | error failed => cases read
  | ok found =>
    obtain rfl := Except.ok.inj read
    -- The token that is replaced counted for one, and the next one is part of what was left.
    have shorter := shortens found.1 found.2 rfl
    simp only [Parser.remaining, if_neg visible]
    omega

/-- What follows a token ends when it ends for less to parse. -/
theorem endsBelow_afterToken {continue_ : Parser → Option Parsed}
    (visible : parser.lookahead.kind ≠ .end_)
    (ends : ∀ next : Parser, next.remaining < parser.remaining → EndsBelow bound (continue_ next)) :
    EndsBelow bound (afterToken parser.advance continue_) := by
  -- The lexer fails, or the parser goes on with less to parse.
  cases read : parser.advance with
  | error failed => exact endsBelow_error failed
  | ok next => exact ends next (remaining_withNext (Lexer.shortens_next parser.lexer) visible read)

/-- What follows a tree ends when it ends for what the tree leaves. -/
theorem endsBelow_afterTree {smaller : Nat} {parsed : Option Parsed}
    {continue_ : FilterExpression → Parser → Option Parsed}
    (first : EndsBelow smaller parsed)
    (ends : ∀ tree (behind : Parser), behind.remaining < smaller →
    EndsBelow bound (continue_ tree behind)) :
    EndsBelow bound (afterTree parsed continue_) := by
  obtain ⟨result, rfl, below⟩ := first
  -- An error is passed on, and a tree has left less to parse.
  rcases result with failed | ⟨tree, behind⟩
  · exact endsBelow_error failed
  · exact ends tree behind (below tree behind rfl)

/-- A leaf takes its last token. -/
theorem endsBelow_leafBehind (visible : parser.lookahead.kind ≠ .end_) (rule : LeafRule) :
    EndsBelow parser.remaining (some (parser.leafBehind rule)) := by
  -- The token of the leaf is used up, or its successor cannot be read.
  cases read : parser.advance with
  | error failed =>
    rw [Parser.leafBehind, read]
    exact endsBelow_error failed
  | ok next =>
    rw [Parser.leafBehind, read]
    exact endsBelow_ok (remaining_withNext (Lexer.shortens_next parser.lexer) visible read)

end Combinators

section Leaves

variable {strtod : Bytes → Option Double} {parser : Parser} {columnKey : Bytes}

/-- A bound is no end. -/
theorem visible_of_isBound (bound : parser.isBound = true) : parser.lookahead.kind ≠ .end_ :=
  fun ends => by
  rw [Parser.isBound, ends] at bound
  cases bound

/-- A value is no end. -/
theorem visible_of_isValue (value : parser.isValue = true) : parser.lookahead.kind ≠ .end_ :=
  fun ends => by
  rw [Parser.isValue, Parser.isBound, Parser.isBool, ends] at value
  cases value

/-- Leaves for texts end. -/
theorem endsBelow_finishStringLeaf (matchType : LeafRuleMatch) :
    EndsBelow parser.remaining (some (parser.finishStringLeaf columnKey matchType)) := by
  unfold Parser.finishStringLeaf
  split
  · rename_i value
    exact endsBelow_leafBehind (visible_of_isValue value) _
  · exact endsBelow_failHere _

/-- Leaves for wildcards end. -/
theorem endsBelow_finishWildcardLeaf :
    EndsBelow parser.remaining (some (parser.finishWildcardLeaf columnKey)) := by
  unfold Parser.finishWildcardLeaf
  split
  · rename_i kind
    exact endsBelow_leafBehind (by rcases kind with kind | kind <;> rw [kind] <;> decide) _
  · exact endsBelow_failHere _

/-- Leaves for regular expressions end. -/
theorem endsBelow_finishRegexLeaf :
    EndsBelow parser.remaining (some (parser.finishRegexLeaf columnKey)) := by
  unfold Parser.finishRegexLeaf
  split
  · rename_i kind
    exact endsBelow_leafBehind (by rw [kind]; decide) _
  · exact endsBelow_failHere _

/-- Leaves for equal values end. -/
theorem endsBelow_finishEqLeaf :
    EndsBelow parser.remaining (some (parser.finishEqLeaf strtod columnKey)) := by
  unfold Parser.finishEqLeaf
  split
  · rename_i kind
    exact endsBelow_leafBehind (by rw [kind]; decide) _
  · rename_i kind
    exact endsBelow_leafBehind (by rw [kind]; decide) _
  · rename_i kind
    -- A number may be out of range, the other bounds are taken as they are.
    split
    · exact endsBelow_leafBehind (by rw [kind]; decide) _
    · exact endsBelow_failHere _
  · rename_i kind
    exact endsBelow_leafBehind (by rw [kind]; decide) _
  · rename_i kind
    exact endsBelow_leafBehind (by rw [kind]; decide) _
  · exact endsBelow_failHere _

/-- Leaves for comparisons end. -/
theorem endsBelow_finishCompareLeaf (operator : Token) :
    EndsBelow parser.remaining (some (parser.finishCompareLeaf strtod columnKey operator)) := by
  unfold Parser.finishCompareLeaf
  split
  · rename_i bound
    cases read : parser.advance with
    | error failed => exact endsBelow_error failed
    | ok next =>
      -- The bound is the last token of the leaf.
      have below := remaining_withNext (Lexer.shortens_next parser.lexer)
        (visible_of_isBound bound) read
      simp only [bind, Except.bind]
      split
      · exact endsBelow_ok below
      · exact endsBelow_ok below
      · exact endsBelow_error _
  · exact endsBelow_failHere _

/-- The end of a range takes the bracket. -/
theorem endsBelow_closeRange (firstTok secondTok : Option Token) :
    EndsBelow parser.remaining (some (parser.closeRange strtod columnKey firstTok secondTok)) := by
  unfold Parser.closeRange
  split
  · exact endsBelow_failHere _
  · rename_i bracket
    split
    · exact endsBelow_failHere _
    · cases read : parser.advance with
      | error failed => exact endsBelow_error failed
      | ok behind =>
        have visible : parser.lookahead.kind ≠ .end_ := by
          rw [not_not.mp bracket]
          decide
        -- Whatever the bounds are, the bracket is the last token of the leaf.
        have below := remaining_withNext (Lexer.shortens_next parser.lexer) visible read
        simp only [bind, Except.bind]
        repeat' split
        all_goals first | exact endsBelow_error _ | exact endsBelow_ok below

/-- Ranges end. -/
theorem endsBelow_finishRangeUpper (firstTok : Option Token) :
    EndsBelow parser.remaining (some (parser.finishRangeUpper strtod columnKey firstTok)) := by
  unfold Parser.finishRangeUpper
  split
  · rename_i bound
    cases read : parser.advance with
    | error failed => exact endsBelow_error failed
    | ok closing =>
      -- The upper bound is taken before the bracket.
      have below := remaining_withNext (Lexer.shortens_next parser.lexer)
        (visible_of_isBound bound) read
      exact (endsBelow_closeRange firstTok (some parser.lookahead)).mono below.le
  · exact endsBelow_closeRange firstTok none

/-- Lists end: each value is a step. -/
theorem endsBelow_listTail {fuel : Nat} {allBool : Bool} {filterValues : List Bytes}
    (enough : parser.remaining < fuel) :
    EndsBelow parser.remaining (parser.listTail strtod columnKey fuel allBool filterValues) := by
  -- The induction is on the steps, and each one takes a comma with its value.
  induction fuel generalizing allBool filterValues parser with
  | zero => omega
  | succ fuel ih =>
    unfold Parser.listTail
    split
    · rename_i comma
      refine endsBelow_afterToken (by rw [comma]; decide) fun value shorter => ?_
      split
      · rename_i isValue
        refine endsBelow_afterToken (visible_of_isValue isValue) fun behind shorter' => ?_
        exact (ih (by omega)).mono (by omega)
      · exact endsBelow_failHere _
    · split
      · rename_i bracket
        -- The bracket ends the list.
        exact endsBelow_leafBehind (by rw [bracket]; decide) _
      · exact endsBelow_failHere _

/-- Lists and ranges end. -/
theorem endsBelow_finishInLeaf {fuel : Nat} (enough : parser.remaining < fuel) :
    EndsBelow parser.remaining (parser.finishInLeaf strtod fuel columnKey) := by
  unfold Parser.finishInLeaf
  split
  · rename_i bracket
    refine endsBelow_afterToken (by rw [bracket]; decide) fun first shorter => ?_
    split
    · rename_i dots
      -- A range without a lower bound.
      exact endsBelow_afterToken (by rw [dots]; decide) fun upper shorter' =>
        (endsBelow_finishRangeUpper none).mono (by omega)
    · split
      · rename_i isValue
        refine endsBelow_afterToken (visible_of_isValue isValue) fun behind shorter' => ?_
        split
        · rename_i dots
          -- A range with one.
          exact endsBelow_afterToken (by rw [dots]; decide) fun upper shorter'' =>
            (endsBelow_finishRangeUpper (some first.lookahead)).mono (by omega)
        · -- No dots follow the value, so it is the first one of a list.
          exact (endsBelow_listTail (by omega)).mono (by omega)
      · split
        · exact endsBelow_failHere _
        · exact endsBelow_failHere _
  · exact endsBelow_failHere _

/-- Leaves end. -/
theorem endsBelow_parseLeaf {fuel : Nat} (enough : parser.remaining < fuel) :
    EndsBelow parser.remaining (parser.parseLeaf strtod fuel) := by
  unfold Parser.parseLeaf
  split
  · rename_i column
    -- The column and the operator are two tokens, so the rest of the leaf has less to parse.
    refine endsBelow_afterToken (by rcases column with kind | kind <;> rw [kind] <;> decide)
      fun op shorter => ?_
    split <;> rename_i kind
    · exact endsBelow_afterToken (by rw [kind]; decide) fun value below =>
        (endsBelow_finishStringLeaf _).mono (by omega)
    · exact endsBelow_afterToken (by rw [kind]; decide) fun value below =>
        endsBelow_finishEqLeaf.mono (by omega)
    · -- The right side of a regular expression is read by its own lexer.
      cases read : op.advanceRegex with
      | error failed => exact endsBelow_error failed
      | ok value =>
        have below := remaining_withNext (Lexer.shortens_nextRegex op.lexer)
          (by rw [kind]; decide) read
        exact endsBelow_finishRegexLeaf.mono (by omega)
    · exact endsBelow_afterToken (by rw [kind]; decide) fun value below =>
        endsBelow_finishWildcardLeaf.mono (by omega)
    -- The four comparisons differ in the token only.
    iterate 4
      exact endsBelow_afterToken (by rw [kind]; decide) fun value below =>
        (endsBelow_finishCompareLeaf _).mono (by omega)
    · exact endsBelow_afterToken (by rw [kind]; decide) fun value below =>
        (endsBelow_finishInLeaf (by omega)).mono (by omega)
    · refine endsBelow_afterToken (by rw [kind]; decide) fun in_ below => ?_
      split
      · rename_i isIn
        -- A negated list is a list behind two more tokens.
        refine endsBelow_afterToken (by rw [isIn]; decide) fun list below' => ?_
        exact endsBelow_afterTree (endsBelow_finishInLeaf (by omega)) fun tree behind shorter' =>
          endsBelow_ok (by omega)
      · exact endsBelow_failHere _
    · exact endsBelow_failHere _
  · exact endsBelow_failHere _

end Leaves

section Trees

variable {strtod : Bytes → Option Double} {parser : Parser} {group : Parser → Option Parsed}
    {fuel bound : Nat}

/-- Atoms end when groups with less to parse do. -/
theorem endsBelow_parseAtom (enough : parser.remaining < fuel)
    (groups : ∀ inner : Parser, inner.remaining < parser.remaining →
    EndsBelow inner.remaining (group inner)) :
    EndsBelow parser.remaining (parser.parseAtom strtod group fuel) := by
  unfold Parser.parseAtom
  split
  · rename_i paren
    refine endsBelow_afterToken (by rw [paren]; decide) fun inner shorter => ?_
    -- What is in the parentheses is a whole query with less to parse.
    refine endsBelow_afterTree (groups inner shorter) fun tree closing shorter' => ?_
    split
    · rename_i close
      exact endsBelow_afterToken (by rw [close]; decide) fun behind shorter'' =>
        endsBelow_ok (by omega)
    · exact endsBelow_failHere _
  · exact endsBelow_parseLeaf enough

/-- Negations end: each one is a step. -/
theorem endsBelow_parseNot {steps : Nat} (enough : parser.remaining < fuel)
    (enoughSteps : parser.remaining < steps)
    (groups : ∀ inner : Parser, inner.remaining < parser.remaining →
    EndsBelow inner.remaining (group inner)) :
    EndsBelow parser.remaining (Parser.parseNot strtod group fuel steps parser) := by
  -- The induction is on the steps, and each one takes a bang.
  induction steps generalizing parser with
  | zero => omega
  | succ steps ih =>
    unfold Parser.parseNot
    split
    · rename_i not_
      refine endsBelow_afterToken (by rw [not_]; decide) fun inner shorter => ?_
      have operand := ih (by omega) (by omega) fun deeper below =>
        groups deeper (below.trans shorter)
      exact endsBelow_afterTree operand fun tree behind shorter' => endsBelow_ok (by omega)
    · exact endsBelow_parseAtom enough groups

/-- Conjunctions end when their operands do: each one is a step. -/
theorem endsBelow_andTail {operand : Parser → Option Parsed} {steps : Nat}
    {children : List FilterExpression}
    (below : parser.remaining < bound) (enough : parser.remaining < steps)
    (operands : ∀ next : Parser, next.remaining ≤ parser.remaining →
    EndsBelow next.remaining (operand next)) :
    EndsBelow bound (Parser.andTail operand steps children parser) := by
  -- The induction is on the steps, and each one takes an operand.
  induction steps generalizing parser children with
  | zero => omega
  | succ steps ih =>
    unfold Parser.andTail
    split
    · rename_i and_
      refine endsBelow_afterToken (by rw [and_]; decide) fun next shorter => ?_
      refine endsBelow_afterTree (operands next shorter.le) fun tree behind shorter' => ?_
      exact ih (by omega) (by omega) fun later le => operands later (by omega)
    · split
      · -- Operands that stand side by side need no token between them.
        refine endsBelow_afterTree (operands parser le_rfl) fun tree behind shorter => ?_
        exact ih (by omega) (by omega) fun later le => operands later (by omega)
      · exact endsBelow_ok below

/-- Disjunctions end when their operands do: each one is a step. -/
theorem endsBelow_orTail {operand : Parser → Option Parsed} {steps : Nat}
    {children : List FilterExpression}
    (below : parser.remaining < bound) (enough : parser.remaining < steps)
    (operands : ∀ next : Parser, next.remaining ≤ parser.remaining →
    EndsBelow next.remaining (operand next)) :
    EndsBelow bound (Parser.orTail operand steps children parser) := by
  -- The induction is on the steps, and each one takes an operand.
  induction steps generalizing parser children with
  | zero => omega
  | succ steps ih =>
    unfold Parser.orTail
    split
    · rename_i or_
      refine endsBelow_afterToken (by rw [or_]; decide) fun next shorter => ?_
      refine endsBelow_afterTree (operands next shorter.le) fun tree behind shorter' => ?_
      exact ih (by omega) (by omega) fun later le => operands later (by omega)
    · exact endsBelow_ok below

/-- The whole grammar ends, with a step more than there is to parse. -/
theorem endsBelow_parseOr (fuel : Nat) (enough : parser.remaining + 1 < fuel) :
    EndsBelow parser.remaining (Parser.parseOr strtod fuel parser) := by
  -- The induction is on the steps, which go down only where a group is entered.
  induction fuel generalizing parser with
  | zero => omega
  | succ fuel ih =>
    have operands : ∀ next : Parser, next.remaining ≤ parser.remaining →
        EndsBelow next.remaining (next.parseAnd strtod (Parser.parseOr strtod fuel) fuel) := by
      intro next le
      -- A group has less to parse than the operand that it is in.
      have groups : ∀ inner : Parser, inner.remaining < parser.remaining →
          EndsBelow inner.remaining (Parser.parseOr strtod fuel inner) :=
            fun inner below => ih (by omega)
      have negations : ∀ later : Parser, later.remaining ≤ next.remaining →
          EndsBelow later.remaining
            (Parser.parseNot strtod (Parser.parseOr strtod fuel) fuel fuel later) :=
              fun later le' =>
        endsBelow_parseNot (by omega) (by omega) fun inner below => groups inner (by omega)
      refine endsBelow_afterTree (negations next le_rfl) fun tree behind shorter => ?_
      exact endsBelow_andTail shorter (by omega) fun later le' => negations later (by omega)
    rw [Parser.parseOr]
    refine endsBelow_afterTree (operands parser le_rfl) fun tree behind shorter => ?_
    exact endsBelow_orTail shorter (by omega) fun later le => operands later (by omega)

end Trees

/-- Every query is parsed, or rejected with an error. -/
theorem parseQuery_isSome (strtod : Bytes → Option Double) (input : Bytes) :
    (parseQuery strtod input).isSome = true := by
  unfold parseQuery
  split
  · rfl
  · rename_i parser read
    split
    · rfl
    · -- The first token and what is behind it are no longer than the input.
      have left : parser.remaining ≤ input.length := by
        cases scanned : Lexer.next { size := input.length, rest := input } with
        | error failed =>
          rw [scanned] at read
          cases read
        | ok found =>
          rw [scanned] at read
          obtain rfl := Except.ok.inj read
          exact Lexer.shortens_next _ found.1 found.2 scanned
      obtain ⟨parsed, found, -⟩ := @endsBelow_parseOr strtod parser (input.length + 2) (by omega)
      rw [found]
      rcases parsed with failed | ⟨tree, behind⟩
      · rfl
      · dsimp only
        split <;> rfl

end Loglib.Query
