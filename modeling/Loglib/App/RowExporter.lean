import Loglib.App.ExportSink
import Loglib.Table.LogTable

/-! Row exporters: what each export format writes, and that an export is all or nothing. -/

namespace Loglib

/-- The export formats. -/
inductive ExportFormat where
  | jsonLines
  | csv
  | snapshot
  | markdown
deriving DecidableEq

/-- The rows to export, in display order, and the columns to show. -/
structure RowSource where
  table : LogTable
  sourceRows : List Int
  visibleColumns : List Nat
  includeHeaderRow : Bool

/-- What the format libraries make of values. -/
structure ValueFormats where
  /-- A value under a print format. -/
  vformat : Bytes → LogValue → Bytes
  /-- A finite double as JSON text, `none` for the others. -/
  doubleText : Double → Option Bytes
  /-- A time in ISO 8601, `none` where that fails. -/
  timeText : Int64 → Option Bytes

/-- The rows between two polls of the stop token. -/
def STOP_POLL_INTERVAL_ROWS : Nat := 4096

section Rows

/-- The loop over the rows, from a slot on: polls, and the commands of each row inside the table. -/
def rowCommands (rowCount : Nat) (row : Nat → List ExportCommand) :
    Nat → List Int → List ExportCommand
  | _, [] => []
  | slot, sourceRow :: rest =>
    (if slot % STOP_POLL_INTERVAL_ROWS = 0 then [.poll] else []) ++
      ((if 0 ≤ sourceRow ∧ sourceRow.toNat < rowCount then row sourceRow.toNat else []) ++
        rowCommands rowCount row (slot + 1) rest)

/-- The texts of commands in a row. -/
theorem ExportCommand.output_append (first second : List ExportCommand) :
    output (first ++ second) = output first ++ output second := by
  induction first with
  | nil => rfl
  | cons command rest ih => cases command <;> simp [output, ih]

/-- The text of the rows does not depend on the polls. -/
theorem output_rowCommands (rowCount : Nat) (row : Nat → List ExportCommand) (slot : Nat)
    (sourceRows : List Int) :
    ExportCommand.output (rowCommands rowCount row slot sourceRows) =
      (sourceRows.filter fun sourceRow => 0 ≤ sourceRow ∧ sourceRow.toNat < rowCount).flatMap
        fun sourceRow => ExportCommand.output (row sourceRow.toNat) := by
  induction sourceRows generalizing slot with
  | nil => rfl
  | cons sourceRow rest ih =>
    -- Polling for a stop writes nothing.
    have polled : ExportCommand.output (if slot % STOP_POLL_INTERVAL_ROWS = 0 then [.poll]
        else []) = [] := by
      split <;> rfl
    rw [rowCommands, ExportCommand.output_append, ExportCommand.output_append, polled, ih,
      List.nil_append]
    by_cases inside : 0 ≤ sourceRow ∧ sourceRow.toNat < rowCount
    · simp [inside]
    · rw [if_neg inside, List.filter_cons_of_neg (by simpa using inside)]
      rfl

end Rows

section Json

/-- The two last hexadecimal digits of a byte. -/
def hexDigits (byte : Byte) : Bytes :=
  let digit (value : Nat) : Byte := (bytes "0123456789abcdef").getD value 0
  [digit (byte.toNat / 16), digit (byte.toNat % 16)]

/-- One byte of a JSON string. -/
def escapeJsonByte (byte : Byte) : Bytes :=
  if byte = ascii '"' then bytes "\\\""
  else if byte = ascii '\\' then bytes "\\\\"
  else if byte = 8 then bytes "\\b"
  else if byte = 12 then bytes "\\f"
  else if byte = 10 then bytes "\\n"
  else if byte = 13 then bytes "\\r"
  else if byte = 9 then bytes "\\t"
  else if byte < 0x20 then bytes "\\u00" ++ hexDigits byte
  else [byte]

/-- `AppendJsonEscaped`. -/
def appendJsonEscaped (out input : Bytes) : Bytes := out ++ input.flatMap escapeJsonByte

/-- `AppendValue`. -/
def appendValue (formats : ValueFormats) (out : Bytes) : LogValue → Bytes
  | .monostate => out ++ bytes "null"
  | .bool value => out ++ if value then bytes "true" else bytes "false"
  | .int64 value => out ++ bytes (toString value)
  | .uint64 value => out ++ bytes (toString value)
  | .double value =>
    -- Infinities and NaN have no JSON text.
    match formats.doubleText value with
    | none => out ++ bytes "null"
    -- A whole number gets a point, so that it is read back as a double.
    | some text => out ++ text ++ if text.any ((bytes ".eE").contains ·) then [] else bytes ".0"
  | .string text => appendJsonEscaped (out ++ bytes "\"") text ++ bytes "\""
  | .timestamp microseconds =>
    -- A time that the formatter cannot show.
    match formats.timeText microseconds with
    | none => out ++ bytes "null"
    | some text => out ++ bytes "\"" ++ text ++ bytes "Z\""

/-- One field of a JSON row; an empty slot is left out. -/
def appendJsonField (formats : ValueFormats) (table : LogTable) (line : LogLine)
    (written : Bytes × Bool)
    (entry : KeyId × CompactLogValue) : Bytes × Bool :=
  let value := entry.2.materialise table.sources[line.source]? table.enumDictionaries
    line.lineId entry.1
  if value.isMonostate then written
  else
    let out := if written.2 then written.1 else written.1 ++ bytes ","
    let named := appendJsonEscaped (out ++ bytes "\"") ((table.keys.keyOf entry.1).getD []) ++
      bytes "\":"
    (appendValue formats named value, false)

/-- `SerializeNormalizedJsonRow`. -/
def serializeNormalizedJsonRow (formats : ValueFormats) (table : LogTable) (line : LogLine) :
    Bytes :=
  (line.values.entries.foldl (appendJsonField formats table line) (bytes "\x7b", true)).1 ++
    bytes "\x7d"

end Json

section Exporters

/-- Cells with a separator between them. -/
def joinCells (cells : List Bytes) : Bytes := [ascii ','].intercalate cells

/-- `AppendCsvCell`: quoted where it must be, with an apostrophe in front of a formula. -/
def csvCell (cell : Bytes) : Bytes :=
  let formulaTrigger := cell.head? = some (ascii '=') ∨ cell.head? = some (ascii '@')
  let hasSpecial := cell.any ((bytes ",\"\r\n").contains ·)
  if hasSpecial = true ∨ formulaTrigger then
    bytes "\"" ++ (if formulaTrigger then bytes "'" else []) ++
      (cell.flatMap fun byte => if byte = ascii '"' then bytes "\"\"" else [byte]) ++ bytes "\""
  else cell

/-- `AppendMarkdownCell`: escaped pipes and backslashes, and blanks for line breaks and tabs. -/
def markdownCell (cell : Bytes) : Bytes :=
  cell.flatMap fun byte =>
    if byte = ascii '|' then bytes "\\|"
    else if byte = ascii '\\' then bytes "\\\\"
    else if byte = 10 ∨ byte = 13 ∨ byte = 9 then bytes " "
    else [byte]

/-- The header of a column that exists. -/
def headerCell (source : RowSource) (render : Bytes → Bytes) (column : Nat) : Bytes :=
  match source.table.columns[column]? with
  | some shown => render shown.header
  | none => []

/-- `JsonLinesExporter::Run`. -/
def jsonLinesCommands (formats : ValueFormats) (source : RowSource) : List ExportCommand :=
  rowCommands source.table.rowCount (fun row =>
    match source.table.lines[row]? with
    | some line => [.write (serializeNormalizedJsonRow formats source.table line ++ [newline])]
    | none => []) 0 source.sourceRows

/-- `CsvExporter::Run`. -/
def csvCommands (formats : ValueFormats) (source : RowSource) : List ExportCommand :=
  (if source.includeHeaderRow then
    [.write (joinCells (source.visibleColumns.map (headerCell source csvCell)) ++ [newline])]
      else []) ++
  rowCommands source.table.rowCount (fun row =>
    [.write (joinCells (source.visibleColumns.map fun column =>
      csvCell (source.table.getValueOrFormatted formats.vformat row column)) ++ [newline])]) 0
        source.sourceRows

/-- `SnapshotExporter::Run`; a line whose source has lost it is skipped. -/
def snapshotCommands (source : RowSource) : List ExportCommand :=
  rowCommands source.table.rowCount (fun row =>
    match source.table.lines[row]?.bind fun line => line.rawLine source.table.sources with
    | some raw => [.write raw, .write [newline]]
    | none => []) 0 source.sourceRows

/-- `MarkdownExporter::Run`. -/
def markdownCommands (formats : ValueFormats) (source : RowSource) : List ExportCommand :=
  (if source.includeHeaderRow ∧ source.visibleColumns ≠ [] then
    [.write (bytes "|" ++
      (source.visibleColumns.flatMap fun column =>
        bytes " " ++ headerCell source markdownCell column ++ bytes " |") ++
      [newline] ++ bytes "|" ++
        (source.visibleColumns.flatMap fun _ => bytes " --- |") ++ [newline])] else []) ++
  rowCommands source.table.rowCount (fun row =>
    [.write (bytes "|" ++ (source.visibleColumns.flatMap fun column =>
      bytes " " ++ markdownCell (source.table.getValueOrFormatted formats.vformat row column) ++
        bytes " |") ++
      [newline])]) 0 source.sourceRows

/-- `MakeExporter` and its `Run`. -/
def exporterCommands (formats : ValueFormats) (source : RowSource) :
    ExportFormat → List ExportCommand
  | .jsonLines => jsonLinesCommands formats source
  | .csv => csvCommands formats source
  | .snapshot => snapshotCommands source
  | .markdown => markdownCommands formats source

/-- The complete export of a format. -/
def completeExport (formats : ValueFormats) (source : RowSource) (format : ExportFormat) : Bytes :=
  ExportCommand.output (exporterCommands formats source format)

/-- Every export is all or nothing, exactly unless a cross-device copy of the finished staging file
fails after it has changed the destination. -/
theorem exportTo_exporter_iff (formats : ValueFormats) (source : RowSource) (format : ExportFormat)
    (faults : ExportFaults) (previous : Option Bytes) :
    AllOrNothing previous (completeExport formats source format)
        (exportTo faults previous (exporterCommands formats source format)) ↔
      ¬faults.SpoilsCopy previous (exporterCommands formats source format) :=
  exportTo_allOrNothing_iff faults previous (exporterCommands formats source format)

/-- Everything succeeds but the copy across devices, which ends when the destination is
cut to nothing. -/
def spoiledCopyFaults : ExportFaults :=
  ⟨true, fun _ => true, true, true, .crossDevice, .failed (some []), fun _ => true, fun _ => false⟩

/-- A CSV export of a table without columns, over a file that has a line. -/
theorem exportTo_spoiled : ∃ formats source,
    ¬AllOrNothing (some (bytes "old")) (completeExport formats source .csv)
      (exportTo spoiledCopyFaults (some (bytes "old")) (exporterCommands formats source .csv)) := by
  refine ⟨⟨fun _ _ => [], fun _ => none, fun _ => none⟩,
    ⟨.ofConfiguration ⟨[], ⟨-1, false⟩⟩, [], [], true⟩, fun holds => ?_⟩
  exact absurd holds.destination (by decide)

end Exporters

end Loglib
