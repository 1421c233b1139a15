import Loglib.Basic.QuotedText
import Loglib.Query.IsoTimestamp

/-! The tokens of the query language, and the scanner that finds the next one. -/

namespace Loglib.Query

/-- `TokenKind`. -/
inductive TokenKind where
  | ident
  | quoted
  | regex
  | number
  | true_
  | false_
  | kwAnd
  | kwOr
  | kwNot
  | kwIn
  | colon
  | eq
  | tilde
  | percent
  | gt
  | gtEq
  | lt
  | ltEq
  | lParen
  | rParen
  | lBracket
  | rBracket
  | comma
  | dotDot
  | end_
deriving DecidableEq, Repr

/-- `Token`. The text is decoded, and the offset is for errors. -/
structure Token where
  kind : TokenKind
  text : Bytes
  offset : Nat
deriving DecidableEq, Repr

/-- `QueryParseError`. -/
structure QueryParseError where
  offset : Nat
  message : Bytes
deriving DecidableEq, Repr

/-- The input from the scanner's position on, and the length of the whole input. -/
structure Lexer where
  size : Nat
  rest : Bytes
deriving DecidableEq, Repr

/-- `std::isspace`. -/
def isSpace (byte : Byte) : Bool := byte = ascii ' ' || (9 ≤ byte && byte ≤ 13)

/-- `std::isalpha`. -/
def isAlpha (byte : Byte) : Bool :=
  (ascii 'a' ≤ byte && byte ≤ ascii 'z') || (ascii 'A' ≤ byte && byte ≤ ascii 'Z')

/-- `IsIdentChar`. -/
def isIdentChar (byte : Byte) : Bool :=
  isAlpha byte || isDecimalDigit byte || byte = ascii '_' || byte = ascii '.' || byte = ascii '-'

/-- `IsIdentStart`. -/
def isIdentStart (byte : Byte) : Bool := isAlpha byte || byte = ascii '_'

/-- The tokens of one byte that starts no other token. -/
def singleByteTokens : List (Byte × TokenKind) :=
  [(ascii '(', .lParen), (ascii ')', .rParen), (ascii '[', .lBracket), (ascii ']', .rBracket),
    (ascii ',', .comma),
    (ascii ':', .colon), (ascii '=', .eq), (ascii '~', .tilde), (ascii '%', .percent)]

/-- The keywords, in small letters. -/
def keywords : List (Bytes × TokenKind) :=
  [(bytes "and", .kwAnd), (bytes "or", .kwOr), (bytes "not", .kwNot), (bytes "in", .kwIn),
    (bytes "true", .true_),
    (bytes "false", .false_)]

section Timestamps

/-- `YYYY-MM-DD` by its digits and dashes. -/
def hasIsoDateShape (text : Bytes) : Bool :=
  10 ≤ text.length && (text.take 4).all isDecimalDigit && text[4]? == some (ascii '-') &&
    ((text.drop 5).take 2).all isDecimalDigit && text[7]? == some (ascii '-') &&
      ((text.drop 8).take 2).all isDecimalDigit

/-- `HH:MM` by its digits and the colon. -/
def hasIsoClockShape (text : Bytes) : Bool :=
  5 ≤ text.length && (text.take 2).all isDecimalDigit && text[2]? == some (ascii ':') &&
    ((text.drop 3).take 2).all isDecimalDigit

/-- What is behind `:SS`, when this follows. -/
def skipIsoSeconds (text : Bytes) : Bytes :=
  if 2 < text.length ∧ text.head? = some (ascii ':') ∧
    ((text.drop 1).take 2).all isDecimalDigit then text.drop 3 else text

/-- What is behind a fraction, which starts with its mark whatever follows this. -/
def skipIsoFraction (text : Bytes) : Bytes :=
  if text.head? = some (ascii '.') ∨
    text.head? = some (ascii ',') then (text.drop 1).dropWhile isDecimalDigit else text

/-- What is behind a zone: `Z`, or a sign with digits and colons. -/
def skipIsoZone (text : Bytes) : Bytes :=
  if text.head? = some (ascii 'Z') then text.drop 1
  else if text.head? = some (ascii '+') ∨ text.head? = some (ascii '-') then
    (text.drop 1).dropWhile fun byte => byte = ascii ':' || isDecimalDigit byte
  else text

/-- What is behind the time of a timestamp, when the date has one. -/
def skipIsoTime (text : Bytes) : Bytes :=
  if text.head? = some (ascii 'T') ∨ text.head? = some (ascii ' ') then
    if hasIsoClockShape (text.drop 1) then skipIsoZone
      (skipIsoFraction (skipIsoSeconds (text.drop 6))) else text
  else text

/-- Whether a token would go on with what is behind it. -/
def bleeds (rest : Bytes) : Bool :=
  rest.head?.any fun byte => isIdentChar byte && byte != ascii '-' && byte != ascii '.'

/-- `TryLexIsoTimestamp`: what is behind the timestamp that the text starts with. -/
def tryLexIsoTimestamp (text : Bytes) : Option Bytes :=
  if hasIsoDateShape text then
    let rest := skipIsoTime (text.drop 10)
    if bleeds rest then none else some rest
  else none

end Timestamps

section Numbers

/-- What is behind a sign, when there is one. -/
def skipSign (text : Bytes) : Bytes :=
  if text.head? = some (ascii '+') ∨ text.head? = some (ascii '-') then text.drop 1 else text

/-- What is behind a decimal part. Two dots are a token of their own. -/
def skipDecimalPart (text : Bytes) : Bytes :=
  if text.head? = some (ascii '.') ∧
    text[1]? ≠ some (ascii '.') then (text.drop 1).dropWhile isDecimalDigit else text

/-- What is behind a number, or the exponent that has no digits. -/
def skipNumber (text : Bytes) : Except Bytes Bytes :=
  let rest := skipDecimalPart ((skipSign text).dropWhile isDecimalDigit)
  if rest.head? = some (ascii 'e') ∨ rest.head? = some (ascii 'E') then
    let digits := skipSign (rest.drop 1)
    if digits.head?.any isDecimalDigit then .ok (digits.dropWhile isDecimalDigit) else .error rest
  else .ok rest

end Numbers

namespace Lexer

variable (lexer : Lexer)

/-- `Position`. -/
def position : Nat := lexer.size - lexer.rest.length

/-- The scanner behind a part of the input. -/
def atRest (rest : Bytes) : Lexer := { lexer with rest }

/-- `SkipWhitespace`. -/
def skipWhitespace : Lexer := lexer.atRest (lexer.rest.dropWhile isSpace)

/-- An error at what is left of the input. -/
def failAt (rest message : Bytes) : Except QueryParseError (Token × Lexer) :=
  .error { offset := (lexer.atRest rest).position, message }

/-- A token without a text. -/
def plainToken (kind : TokenKind) (length : Nat) : Except QueryParseError (Token × Lexer) :=
  .ok ({ kind, text := [], offset := lexer.position }, lexer.atRest (lexer.rest.drop length))

/-- A token with the text up to what is left of the input. -/
def textToken (kind : TokenKind) (rest : Bytes) : Except QueryParseError (Token × Lexer) :=
  .ok ({ kind, text := lexer.rest.take (lexer.rest.length - rest.length)
         offset := lexer.position }, lexer.atRest rest)

/-- `LexQuoted`. An unknown escape stands for the byte behind the backslash. -/
def lexQuoted : Except QueryParseError (Token × Lexer) :=
  match untilMark (lexer.rest.drop 1) with
  | some (inner, behind) =>
    .ok ({ kind := .quoted, text := unescapeText (fun next => [next]) inner
           offset := lexer.position }, lexer.atRest behind)
  | none => lexer.failAt [] (bytes "unterminated string literal")

/-- `LexNumber`. -/
def lexNumber : Except QueryParseError (Token × Lexer) :=
  match skipNumber lexer.rest with
  | .ok rest => lexer.textToken .number rest
  | .error rest =>
    lexer.failAt rest (bytes "exponent in numeric literal must include at least one digit")

/-- `LexIdent`: keywords are found whatever the case of their letters. -/
def lexIdent : Except QueryParseError (Token × Lexer) :=
  let lower := (lexer.rest.takeWhile isIdentChar).map foldAscii
  lexer.textToken ((keywords.lookup lower).getD .ident) (lexer.rest.dropWhile isIdentChar)

/-- A number, or a timestamp, which takes precedence. -/
def lexDigits : Except QueryParseError (Token × Lexer) :=
  match tryLexIsoTimestamp lexer.rest with
  | some rest => lexer.textToken .ident rest
  | none => lexer.lexNumber

/-- The token that starts with a byte, which is not white space. -/
def lexFrom (ch : Byte) (behind : Bytes) : Except QueryParseError (Token × Lexer) :=
  if ch = quotationMark then lexer.lexQuoted
  else
    match singleByteTokens.lookup ch with
    | some kind => lexer.plainToken kind 1
    | none =>
      if ch = ascii '>' then
        if behind.head? = some (ascii '=') then lexer.plainToken .gtEq 2 else lexer.plainToken .gt 1
      else if ch = ascii '<' then
        if behind.head? = some (ascii '=') then lexer.plainToken .ltEq 2 else lexer.plainToken .lt 1
      else if ch = ascii '.' ∧ behind.head? = some (ascii '.') then lexer.plainToken .dotDot 2
      else if ch = ascii '&' ∧ behind.head? = some (ascii '&') then lexer.plainToken .kwAnd 2
      else if ch = ascii '|' ∧ behind.head? = some (ascii '|') then lexer.plainToken .kwOr 2
      else if ch = ascii '!' then lexer.plainToken .kwNot 1
      -- A sign starts a number only in front of a digit.
      else if isDecimalDigit ch ∨
        ((ch = ascii '+' ∨ ch = ascii '-') ∧ behind.head?.any isDecimalDigit) then lexer.lexDigits
      else if isIdentStart ch then lexer.lexIdent
      else lexer.failAt lexer.rest (bytes "unexpected character '" ++ [ch] ++ bytes "'")

/-- `Next`: the end of the input is a token that stays. -/
def next : Except QueryParseError (Token × Lexer) :=
  let skipped := lexer.skipWhitespace
  match skipped.rest with
  | [] => skipped.plainToken .end_ 0
  | ch :: behind => skipped.lexFrom ch behind

/-- The body of a regular expression, of which only `\/` is decoded, and what is behind it. -/
def regexBody (body : Bytes) : Bytes → Option (Bytes × Bytes)
  | [] => none
  | [ch] => if ch = ascii '/' then some (body, []) else none
  | ch :: second :: rest =>
    if ch = escapeMark then
      regexBody (body ++ if second = ascii '/' then [ascii '/'] else [escapeMark, second]) rest
    else if ch = ascii '/' then some (body, second :: rest)
    else regexBody (body ++ [ch]) (second :: rest)

/-- `NextRegex`, for what follows a tilde. -/
def nextRegex : Except QueryParseError (Token × Lexer) :=
  let skipped := lexer.skipWhitespace
  if skipped.rest.head? = some (ascii '/') then
    match regexBody [] (skipped.rest.drop 1) with
    | some (body, behind) =>
      .ok ({ kind := .regex, text := body, offset := skipped.position }, skipped.atRest behind)
    | none => skipped.failAt [] (bytes "unterminated regex literal")
  else skipped.failAt skipped.rest (bytes "expected '/' to open regex literal")

end Lexer

end Loglib.Query
