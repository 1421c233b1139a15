import Loglib.Basic.SeparatedLines
import Loglib.Table.LineSource

/-! Which format the first bytes of a stream are taken for, and how many of them are read for it. -/

namespace Loglib

/-- `ProbeLine`. -/
structure ProbeLine where
  line : Bytes
  bytesConsumed : Nat
  terminated : Bool

/-- A line with its newline. -/
def ProbeLine.complete (line : Bytes) : ProbeLine :=
  ⟨LogFile.dropCarriageReturn line, line.length + 1, true⟩

/-- The last line, without a newline. There is none behind the last newline. -/
def ProbeLine.partial_ (rest : Bytes) : List ProbeLine :=
  if rest = [] then [] else [⟨LogFile.dropCarriageReturn rest, rest.length, false⟩]

/-- The lines that `NextProbeLine` gives one after the other. -/
def probeLines (sniffBuffer : Bytes) : List ProbeLine :=
  (splitLines newline sniffBuffer).1.map ProbeLine.complete ++ ProbeLine.partial_
    (splitLines newline sniffBuffer).2

/-- The lines that are not empty. -/
def ProbeLine.nonBlank (lines : List ProbeLine) : List ProbeLine := lines.filter (·.line ≠ [])

/-- The byte order mark of UTF-8. -/
def utf8Bom : Bytes := [0xEF, 0xBB, 0xBF]

/-- `StripBom`. -/
def stripBom (line : Bytes) : Bytes :=
  if utf8Bom.isPrefixOf line then line.drop utf8Bom.length else line

section Logfmt

/-- `LineLooksLikeLogfmt`: a key, and an equals sign behind it. -/
def lineLooksLikeLogfmt (line : Bytes) : Bool :=
  if line.head? = some (ascii '{') ∨ line.head? = some (ascii '[') then false
  else
    let fromKey := line.dropWhile (· ≤ ascii ' ')
    let inKey (c : Byte) : Bool := !(c ≤ ascii ' ' || c = ascii '=' || c = ascii '"')
    fromKey.takeWhile inKey ≠ [] ∧ (fromKey.dropWhile inKey).head? = some (ascii '=')

end Logfmt

section Csv

/-- Where `TokenizeCsvLine` is within a cell, with the text of the cell so far. -/
inductive CsvPlace where
  | start
  | bare (cell : Bytes)
  | quoted (cell : Bytes)
  /-- Behind a quote that closes the cell, unless another one follows. -/
  | closing (cell : Bytes)
  | skipping

/-- `TokenizeCsvLine` from a place on. `none` for a quoted cell that does not end. -/
def tokenizeCsvFrom : CsvPlace → Bytes → Option (List Bytes)
  | .start, [] => some [[]]
  | .start, c :: rest =>
    if c = ascii '"' then tokenizeCsvFrom (.quoted []) rest
    else if c = ascii ',' then (tokenizeCsvFrom .start rest).map ([] :: ·)
    else tokenizeCsvFrom (.bare [c]) rest
  | .bare cell, [] => some [cell]
  | .bare cell, c :: rest =>
    if c = ascii ',' then (tokenizeCsvFrom .start rest).map (cell :: ·)
    else tokenizeCsvFrom (.bare (cell ++ [c])) rest
  -- The quotation mark was never closed.
  | .quoted _, [] => none
  | .quoted cell, c :: rest =>
    if c = ascii '"' then tokenizeCsvFrom (.closing cell) rest
    else tokenizeCsvFrom (.quoted (cell ++ [c])) rest
  | .closing cell, [] => some [cell]
  | .closing cell, c :: rest =>
    -- Two marks in a row are one mark of the text.
    if c = ascii '"' then tokenizeCsvFrom (.quoted (cell ++ [c])) rest
    else if c = ascii ',' then (tokenizeCsvFrom .start rest).map (cell :: ·)
    -- What stands behind the closing mark is skipped up to the comma.
    else (tokenizeCsvFrom .skipping rest).map (cell :: ·)
  | .skipping, [] => some []
  | .skipping, c :: rest =>
    if c = ascii ',' then tokenizeCsvFrom .start rest else tokenizeCsvFrom .skipping rest

/-- `TokenizeCsvLine`. -/
def tokenizeCsvLine (line : Bytes) : Option (List Bytes) := tokenizeCsvFrom .start line

/-- `CountCsvCells`. -/
def countCsvCells (line : Bytes) : Option Nat := (tokenizeCsvLine line).map List.length

/-- `HeaderLineLooksLikeCsv`: two cells, and two that are not empty. -/
def headerLineLooksLikeCsv (line : Bytes) : Bool :=
  match tokenizeCsvLine line with
  | none => false
  | some cells => 2 ≤ cells.length ∧ 2 ≤ (cells.filter (· ≠ [])).length

/-- `CsvParser::IsValidBytes`: a header, and a second line of as many cells. -/
def csvIsValidBytes (sniffBuffer : Bytes) : Bool :=
  match ProbeLine.nonBlank (probeLines sniffBuffer) with
  | header :: row :: _ =>
    headerLineLooksLikeCsv (stripBom header.line) ∧
      countCsvCells row.line = countCsvCells (stripBom header.line)
  | _ => false

end Csv

/-- What detection asks of other code: whether a line is a JSON object, and whether a template
matches a line. The templates are named by their patterns, in the order in which they are tried. -/
structure FormatProbes where
  isJsonObject : Bytes → Bool
  templates : List Bytes
  matchesFullyForProbe : Bytes → Bytes → Bool

/-- `DetectedFormat`. -/
inductive DetectedFormat where
  | json
  | logfmt
  | regex (pattern : Bytes)
  | csv
deriving DecidableEq

/-- `PROBE_BYTES_BUDGET`. -/
def probeBytesBudget : Nat := 16 * 1024

/-- `IS_VALID_PROBE_MAX_LINES`. -/
def probeMaxLines : Nat := 8

/-- `IS_VALID_MIN_MATCHES`. -/
def probeMinMatches : Nat := 2

/-- The lines that templates are tried on. The byte order mark is stripped from the very
first one. -/
def collectProbeLines : Bool → Nat → Nat → List ProbeLine → List Bytes
  | _, _, _, [] => []
  | firstLine, bytesScanned, count, probe :: rest =>
    let line := if firstLine then stripBom probe.line else probe.line
    let bytesScanned := bytesScanned + probe.bytesConsumed
    let kept := if line = [] then [] else [line]
    let count := count + kept.length
    if probeBytesBudget ≤ bytesScanned ∨ probeMaxLines ≤ count then kept
    else kept ++ collectProbeLines false bytesScanned count rest

namespace FormatProbes

/-- A template matches enough lines. -/
def claims (probes : FormatProbes) (lines : List Bytes) (pattern : Bytes) : Bool :=
  probeMinMatches ≤ lines.countP (probes.matchesFullyForProbe pattern)

/-- `ProbeAutoDetectTemplates`. -/
def probeAutoDetectTemplates (probes : FormatProbes) (sniffBuffer : Bytes) : Option Bytes :=
  let lines := collectProbeLines true 0 0 (probeLines sniffBuffer)
  if lines.length < probeMinMatches then none else probes.templates.find? (probes.claims lines)

/-- The formats that one line decides. JSON comes first. -/
def lineFormat (probes : FormatProbes) (line : Bytes) : Option DetectedFormat :=
  if probes.isJsonObject line then some .json
  else if lineLooksLikeLogfmt line then some .logfmt
  else none

/-- What the first line that is not empty decides: `JsonParser::IsValidBytes`, then
`LogfmtParser::IsValidBytes`. -/
def headFormat (probes : FormatProbes) (sniffBuffer : Bytes) : Option DetectedFormat :=
  (ProbeLine.nonBlank (probeLines sniffBuffer)).head?.bind fun probe => probes.lineFormat probe.line

/-- `TryDetectFormatFromBytes`. -/
def tryDetectFormatFromBytes (probes : FormatProbes) (sniffBuffer : Bytes) :
    Option DetectedFormat :=
  match probes.headFormat sniffBuffer with
  | some format => some format
  | none =>
    match probes.probeAutoDetectTemplates sniffBuffer with
    | some pattern => some (.regex pattern)
    | none => if csvIsValidBytes sniffBuffer then some .csv else none

/-- `DetectFormatFromBytes`. -/
def detectFormatFromBytes (probes : FormatProbes) (sniffBuffer : Bytes) : DetectedFormat :=
  (probes.tryDetectFormatFromBytes sniffBuffer).getD .json

/-- `DrainPeek`, for what the reads of a stream return until it is closed. -/
def drainPeek (probes : FormatProbes) (peekBudget : Nat) : Bytes → List Bytes → Bytes
  | peek, [] => peek
  | peek, read :: rest =>
    if peekBudget ≤ peek.length then peek
    else if newline ∈ peek ++ read ∧
      (probes.tryDetectFormatFromBytes (peek ++ read)).isSome then peek ++ read
    else drainPeek probes peekBudget (peek ++ read) rest

/-- The format that `AutoDetectParser` picks for a stream without carried bytes. -/
def pickFormat (probes : FormatProbes) (peekBudget : Nat) (reads : List Bytes) : DetectedFormat :=
  probes.detectFormatFromBytes (probes.drainPeek peekBudget [] reads)

end FormatProbes

end Loglib
