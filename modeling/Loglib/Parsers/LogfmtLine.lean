import Loglib.Basic.QuotedText
import Loglib.Parsers.BareScalars

/-! Logfmt lines: how they are cut into keys and values, what the values are, and how they
are written. -/

namespace Loglib

/-- One pair of a line. -/
structure LogfmtField where
  key : Bytes
  value : Bytes
  /-- The value stays a string. -/
  valueWasQuoted : Bool
  /-- The value had escapes and is a copy. -/
  unescapedFromQuoted : Bool
  valueIsNull : Bool
deriving DecidableEq, Repr

namespace Logfmt

/-- The byte between a key and its value. -/
def equalsSign : Byte := ascii '='

/-- The byte between two pairs. -/
def blank : Byte := ascii ' '

/-- The bytes of a key. -/
def isKeyByte (byte : Byte) : Bool := blank < byte && byte != equalsSign && byte != quotationMark

/-- The bytes of a bare value. -/
def isBareByte (byte : Byte) : Bool := blank < byte && byte != quotationMark

/-- `isSpace`, and the end of the line. -/
def endsValue (byte : Byte) : Bool :=
  byte = blank || byte = ascii '\t' || byte = 11 || byte = 12 || byte = ascii '\r' || byte = newline

/-- A pair without a value. -/
def nullField (key : Bytes) : LogfmtField := ⟨key, [], false, false, true⟩

/-- What an unknown escape becomes: both of its bytes. -/
def unknownEscape (next : Byte) : Bytes := [escapeMark, next]

/-- One turn of the scanner. -/
inductive Turn where
  | finished
  /-- A stray byte is skipped. -/
  | stray (rest : Bytes)
  | field (field : LogfmtField) (rest : Bytes)
  | unterminated
deriving DecidableEq, Repr

/-- The value behind an equals sign. -/
def scanValue (key text : Bytes) : Turn :=
  match text with
  | [] => .field (nullField key) []
  | first :: more =>
    -- A key with nothing behind its sign.
    if endsValue first then .field (nullField key) text
    else if first = quotationMark then
      match untilMark more with
      | none => .unterminated
      | some (rawInner, rest) =>
        let sawEscape := rawInner.contains escapeMark
        .field ⟨key, if sawEscape then unescapeText unknownEscape rawInner
          else rawInner, true, sawEscape, false⟩ rest
    else .field ⟨key, text.takeWhile isBareByte, false, false, false⟩ (text.dropWhile isBareByte)

/-- The next pair of a line. -/
def scan (line : Bytes) : Turn :=
  let start := line.dropWhile (· ≤ blank)
  if start = [] then .finished
  else
    let key := start.takeWhile isKeyByte
    if key = [] then .stray (start.drop 1)
    else
      match start.dropWhile isKeyByte with
      | [] => .field (nullField key) []
      | mark :: text =>
        if mark = equalsSign then scanValue key text else .field (nullField key) (mark :: text)

/-- The pairs from here on, and whether all quotes were closed. Each turn takes a byte. -/
def tokenizeFrom : Nat → Bytes → List LogfmtField × Bool
  | 0, _ => ([], true)
  | turns + 1, line =>
    match scan line with
    | .finished => ([], true)
    | .stray rest => tokenizeFrom turns rest
    | .unterminated => ([], false)
    | .field field rest =>
      let (fields, closed) := tokenizeFrom turns rest
      (field :: fields, closed)

end Logfmt

/-- `TokenizeLogfmtLine`. -/
def tokenizeLogfmtLine (line : Bytes) : List LogfmtField × Bool := Logfmt.tokenizeFrom
    (line.length + 1) line

/-- The value of a pair. -/
def LogfmtField.read (scalars : ScalarText) (field : LogfmtField) : LogValue :=
  if field.valueIsNull then .monostate
  else if field.valueWasQuoted then .string field.value
  else classifyBareScalar scalars field.value

/-- The fields of a record by name: of two with one name the last one stays. -/
abbrev LogfmtRecord := Bytes → Option LogValue

/-- A pair becomes a field of its key. -/
def emitField (scalars : ScalarText) (record : LogfmtRecord) (field : LogfmtField) : LogfmtRecord :=
  Function.update record field.key (some (field.read scalars))

/-- `ParseLogfmtLine`. It fails where a quote is not closed. -/
def parseLogfmtLine (scalars : ScalarText) (line : Bytes) : Option LogfmtRecord :=
  let (fields, closed) := tokenizeLogfmtLine line
  if closed then some (fields.foldl (emitField scalars) fun _ => none) else none

section Writing

/-- `BareValueIsSafe`. -/
def bareValueIsSafe (value : Bytes) : Bool :=
  value ≠ [] && value.all fun byte =>
    Logfmt.blank < byte && byte != quotationMark && byte != Logfmt.equalsSign && byte != escapeMark

namespace Logfmt

/-- `AppendQuotedString`. -/
def appendQuotedString (value : Bytes) : Bytes :=
  quotationMark :: escapeText value ++ [quotationMark]

/-- `AppendValueAsString`. -/
def appendValueAsString (scalars : ScalarText) : LogValue → Bytes
  | .monostate => []
  | .timestamp microseconds => appendQuotedString (scalars.timeStampToDateTimeString microseconds)
  | .string text => if bareValueIsSafe text then text else appendQuotedString text
  | .bool value => if value then bytes "true" else bytes "false"
  | .int64 value => decimalInt value.toInt
  | .uint64 value => decimalInt value.toNat
  | .double value =>
    -- Infinities and NaNs would be read as strings, and are written as such.
    if value.magnitude < Double.infinityBits then scalars.formatDouble value
    else appendQuotedString (scalars.formatDouble value)

/-- A pair as it is written. -/
def appendPair (scalars : ScalarText) (entry : Bytes × LogValue) : Bytes :=
  entry.1 ++ equalsSign :: appendValueAsString scalars entry.2

/-- The pairs with a blank between two of them. -/
def appendPairs (scalars : ScalarText) : List (Bytes × LogValue) → Bytes
  | [] => []
  | [entry] => appendPair scalars entry
  | entry :: next :: rest => appendPair scalars entry ++ blank :: appendPairs scalars (next :: rest)

end Logfmt

/-- `LogfmtParser::ToString` of a map, of which the entries stand in any order. -/
def logfmtToString (scalars : ScalarText) (values : List (Bytes × LogValue)) : Bytes :=
  Logfmt.appendPairs scalars (values.mergeSort fun first second =>
    !decide (byteKey second.1 < byteKey first.1))

end Writing

end Loglib
