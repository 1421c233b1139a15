import Loglib.App.RowExporter
import Loglib.Basic.SeparatedLines
import Loglib.Basic.TableText
import Loglib.Table.Operations
import Loglib.Table.ValueRuns

/-! Tabular exports read back: the records of a CSV export and the rows of a Markdown export. -/

namespace Loglib

/-- A text that a spreadsheet takes for a formula. -/
def isFormulaTrigger (cell : Bytes) : Prop := cell.head? = some (ascii '=') ∨ cell.head? = some
    (ascii '@')

/-- Whether a cell is a formula can be evaluated. -/
instance (cell : Bytes) : Decidable (isFormulaTrigger cell) := inferInstanceAs (Decidable (_ ∨ _))

/-- What a CSV field holds for a text: a formula has an apostrophe in front. -/
def spreadsheetText (cell : Bytes) : Bytes :=
  if isFormulaTrigger cell then ascii '\'' :: cell else cell

/-- What a Markdown cell holds for a text: blanks for line breaks and tabs. -/
def singleLineText (cell : Bytes) : Bytes :=
  cell.map fun byte => if byte = newline ∨ byte = ascii '\r' ∨ byte = ascii '\t' then ascii ' '
    else byte

namespace RowSource

variable (source : RowSource)

/-- The headers of the visible columns, empty for a column that is not there. -/
def headers : List Bytes :=
  source.visibleColumns.map fun column => ((source.table.columns[column]?).map (·.header)).getD []

/-- The source rows that the table has. -/
def shownRows : List Nat :=
  (source.sourceRows.filter fun sourceRow => 0 ≤ sourceRow ∧
    sourceRow.toNat < source.table.rowCount).map Int.toNat

/-- The visible cells of a row. -/
def cells (formats : ValueFormats) (row : Nat) : List Bytes :=
  source.visibleColumns.map (source.table.getValueOrFormatted formats.vformat row)

end RowSource

section Csv

/-- A cell is quoted for its bytes, or as a formula. -/
theorem csvCell_eq (cell : Bytes) :
    csvCell cell = if (cell.any fun byte => (bytes ",\"\r\n").contains byte) = true ∨
      isFormulaTrigger cell then
      quotedField (spreadsheetText cell) else cell := by
  unfold csvCell spreadsheetText isFormulaTrigger
  -- The apostrophe is no mark, so doubling the marks leaves it alone.
  by_cases formula : cell.head? = some (ascii '=') ∨ cell.head? = some (ascii '@')
    <;> simp only [formula, or_true, or_false, if_true, if_false]
  · rfl
  · split <;> rfl

/-- A written cell stands for its text, guarded against formulas. -/
theorem csvCell_spells (cell : Bytes) : Spells (spreadsheetText cell) (csvCell cell) := by
  rw [csvCell_eq]
  split
  · exact .quoted
  · rename_i plain
    rw [not_or, Bool.not_eq_true, List.any_eq_false] at plain
    rw [spreadsheetText, if_neg plain.2]
    -- The bytes that make the writer quote a cell are the ones that a bare field must not have.
    refine .bare (List.all_eq_true.mpr fun byte listed => ?_)
    have absent := plain.1 byte listed
    simp only [isBareFieldByte, Bool.and_eq_true, bne_iff_ne, ne_eq]
    simpa [bytes, quotationMark, newline, and_assoc] using absent

/-- The cells of a row as a record. -/
def csvRecord (cells : List Bytes) : Bytes := joinFields (cells.map csvCell) ++ [newline]

/-- A header is written like any other cell, and nothing where there is none. -/
theorem headerCell_eq (source : RowSource) {render : Bytes → Bytes} (nothing : render [] = []) :
    source.visibleColumns.map (headerCell source render) = source.headers.map render := by
  rw [RowSource.headers, List.map_map]
  refine List.map_congr_left fun column _ => ?_
  simp only [headerCell, Function.comp_apply]
  -- A column that is not there has an empty header, which is rendered as nothing.
  cases source.table.columns[column]? with
  | none => exact nothing.symm
  | some shown => rfl

/-- The rows of an export, each with its text. -/
theorem output_rows (source : RowSource) (row : Nat → Bytes) :
    ExportCommand.output (rowCommands source.table.rowCount (fun sourceRow =>
      [.write (row sourceRow)]) 0 source.sourceRows) =
      source.shownRows.flatMap row := by
  rw [output_rowCommands, RowSource.shownRows, List.flatMap_map]
  simp [ExportCommand.output]

/-- A CSV export has a record for the headers and one for each row. -/
theorem completeExport_csv (formats : ValueFormats) (source : RowSource) :
    completeExport formats source .csv =
      ((if source.includeHeaderRow then [source.headers]
        else []) ++ source.shownRows.map (source.cells formats)).flatMap csvRecord := by
  have rows := output_rows source fun row => csvRecord (source.cells formats row)
  have header := headerCell_eq source (show csvCell [] = [] by decide)
  simp only [csvRecord, RowSource.cells, List.map_map, Function.comp_def] at rows
  unfold completeExport exporterCommands csvCommands
  rw [ExportCommand.output_append, List.flatMap_append, List.flatMap_map]
  -- The header row and the other rows are written one after the other.
  congr 1
  · rw [header]
    split
    · simp [ExportCommand.output, csvRecord, joinCells, joinFields]
    · rfl
  · simpa [joinCells, joinFields, csvRecord, RowSource.cells, Function.comp_def] using rows

/-- Each record has a field for each visible column. -/
theorem length_record {formats : ValueFormats} {source : RowSource} {record : List Bytes}
    (listed : record ∈ (if source.includeHeaderRow then [source.headers]
    else []) ++ source.shownRows.map (source.cells formats)) :
    record.length = source.visibleColumns.length := by
  rcases List.mem_append.mp listed with header | row
  · split at header
    · rw [List.mem_singleton.mp header, RowSource.headers, List.length_map]
    · cases header
  · -- A row has a cell for each visible column.
    obtain ⟨row, -, rfl⟩ := List.mem_map.mp row
    rw [RowSource.cells, List.length_map]

/-- The text of a CSV export reads back as its headers and rows, with formulas guarded. -/
theorem readRecords_csv (formats : ValueFormats) {source : RowSource}
    (some_ : source.visibleColumns ≠ []) :
    readRecords (completeExport formats source .csv) =
      some (((if source.includeHeaderRow then [source.headers]
        else []) ++ source.shownRows.map (source.cells formats)).map
        (List.map spreadsheetText)) := by
  rw [completeExport_csv]
  -- A record with a column has at least one field, so it is never the empty text of no record.
  refine readRecords_spelled csvCell_spells fun record listed => ?_
  rw [← List.length_pos_iff, length_record listed]
  exact List.length_pos_iff.mpr some_

end Csv

section Markdown

/-- A written cell is its text on one line, with its bars escaped. -/
theorem markdownCell_eq (cell : Bytes) : markdownCell cell = escapeBars (singleLineText cell) := by
  unfold markdownCell escapeBars singleLineText
  rw [List.flatMap_map]
  refine List.flatMap_congr fun byte _ => ?_
  by_cases isBar : byte = ascii '|'
  · subst isBar; rfl
  · by_cases isEscape : byte = ascii '\\'
    · subst isEscape; rfl
    · have kept : ¬(byte = bar ∨ byte = escapeMark) := by rw [not_or]; exact ⟨isBar, isEscape⟩
      have blank : ¬(ascii ' ' = bar ∨ ascii ' ' = escapeMark) := by decide
      have same : (byte = newline ∨ byte = ascii '\r' ∨ byte = ascii '\t') ↔
          (byte = 10 ∨ byte = 13 ∨ byte = 9) := Iff.rfl
      rw [if_neg isBar, if_neg isEscape]
      -- A line break or a tab turns into a blank, which needs no escape.
      by_cases breaks : byte = 10 ∨ byte = 13 ∨ byte = 9
      · rw [if_pos breaks, if_pos (same.mpr breaks), if_neg blank]
        rfl
      · rw [if_neg breaks, if_neg (mt same.mp breaks), if_neg kept]

/-- The rows of a Markdown export: the headers with their ruler, and the cells of each row. -/
def markdownRows (formats : ValueFormats) (source : RowSource) : List (List Bytes) :=
  (if source.includeHeaderRow ∧ source.visibleColumns ≠ [] then
    [source.headers.map singleLineText, source.visibleColumns.map fun _ => bytes "---"] else []) ++
  source.shownRows.map fun row => (source.cells formats row).map singleLineText

/-- The cells of a row with their bars. -/
theorem tableRow_markdownCell {α : Type*} (columns : List α) (text : α → Bytes) :
    bytes "|" ++ columns.flatMap
      (fun column => bytes " " ++ markdownCell (text column) ++ bytes " |") =
      tableRow (columns.map fun column => singleLineText (text column)) := by
  rw [tableRow, List.flatMap_map]
  refine congrArg (bar :: ·) (List.flatMap_congr fun column _ => ?_)
  rw [markdownCell_eq, paddedCell]
  simp [bytes, bar]

/-- The ruler has no line breaks either. -/
theorem mem_markdownRows {formats : ValueFormats} {source : RowSource} {row : List Bytes}
    (listed : row ∈ markdownRows formats source) :
    ∃ cells : List Bytes, row = cells.map singleLineText := by
  have ruler : bytes "---" = singleLineText (bytes "---") := rfl
  -- The header row, the ruler below it, or a row of the source.
  rcases List.mem_append.mp listed with header | shown
  · split at header
    · rcases List.mem_pair.mp header with rfl | rfl
      · exact ⟨_, rfl⟩
      · refine ⟨source.visibleColumns.map fun _ => bytes "---", ?_⟩
        rw [List.map_map]
        exact List.map_congr_left fun _ _ => ruler
    · cases header
  · obtain ⟨row, -, rfl⟩ := List.mem_map.mp shown
    exact ⟨_, rfl⟩

/-- A Markdown export has a line for each of its rows. -/
theorem completeExport_markdown (formats : ValueFormats) (source : RowSource) :
    completeExport formats source .markdown = joinLines newline
      ((markdownRows formats source).map tableRow) := by
  have rows := output_rows source fun row =>
    tableRow ((source.cells formats row).map singleLineText) ++ [newline]
  -- The ruler has a cell of dashes for each column.
  have ruler : bytes "|" ++ source.visibleColumns.flatMap (fun _ => bytes " --- |") =
      tableRow (source.visibleColumns.map fun _ => bytes "---") := by
    rw [tableRow, List.flatMap_map]
    rfl
  -- The header row has a cell for each header.
  have header : bytes "|" ++ source.visibleColumns.flatMap (fun column =>
    bytes " " ++ headerCell source markdownCell column ++ bytes " |") =
      tableRow (source.headers.map singleLineText) := by
    have cells := headerCell_eq source (show markdownCell [] = [] by decide)
    have written := tableRow_markdownCell source.headers id
    rw [← List.flatMap_map (g := fun cell => bytes " " ++ cell ++ bytes " |") (f :=
      headerCell source markdownCell), cells,
      List.flatMap_map]
    exact written
  unfold completeExport exporterCommands markdownCommands markdownRows
  rw [ExportCommand.output_append, List.map_append, joinLines_append]
  congr 1
  · rw [header]
    split
    · -- The header row and its ruler are two lines.
      have text : tableRow (source.headers.map singleLineText) ++ [newline] ++ bytes "|" ++
          source.visibleColumns.flatMap (fun _ => bytes " --- |") ++ [newline] =
          tableRow (source.headers.map singleLineText) ++ [newline] ++
            (bytes "|" ++ source.visibleColumns.flatMap (fun _ => bytes " --- |")) ++ [newline] := by
        simp only [List.append_assoc]
      rw [text, ruler]
      simp [ExportCommand.output]
    · rfl
  · simp only [tableRow_markdownCell]
    rw [joinLines, List.map_map, List.flatMap_map]
    simpa [RowSource.cells, Function.comp_def] using rows

/-- A row of a Markdown export is one line. -/
theorem tableRow_singleLine (cells : List Bytes) :
    newline ∉ tableRow (cells.map singleLineText) ∧ ascii '\r' ∉ tableRow
      (cells.map singleLineText) := by
  -- The cells have no line breaks, and the bytes around them are none.
  have plain : ∀ byte : Byte, byte = newline ∨ byte = ascii '\r' →
      ∀ cell, byte ∉ singleLineText cell := by
    intro byte breaks cell listed
    obtain ⟨own, -, same⟩ := List.mem_map.mp listed
    split at same
    · rw [← same] at breaks
      exact absurd breaks (by decide)
    · rename_i kept
      rw [same, not_or, not_or] at kept
      exact breaks.elim kept.1 kept.2.1
  have outside : ∀ byte : Byte, byte = newline ∨ byte = ascii '\r' →
      byte ∉ tableRow (cells.map singleLineText) := by
    intro byte breaks listed
    -- The bytes of a row are those around the cells, or of a cell.
    obtain isBar | isEscape | isBlank | ⟨cell, held, inside⟩ := mem_tableRow listed
    · rw [isBar] at breaks
      exact absurd breaks (by decide)
    · rw [isEscape] at breaks
      exact absurd breaks (by decide)
    · rw [isBlank] at breaks
      exact absurd breaks (by decide)
    · obtain ⟨text, -, rfl⟩ := List.mem_map.mp held
      exact plain byte breaks text inside
  exact ⟨outside _ (.inl rfl), outside _ (.inr rfl)⟩

end Markdown

/-- Tabular exports read back: the CSV export as a record of the visible columns for the headers and
for each row of the table, with formulas guarded, and the Markdown export as one line for each of
its rows. -/
theorem exports_readBack (formats : ValueFormats) (source : RowSource)
    (some_ : source.visibleColumns ≠ []) :
    (∃ records, readRecords (completeExport formats source .csv) = some records ∧
      (∀ record ∈ records, record.length = source.visibleColumns.length) ∧
      records = ((if source.includeHeaderRow then [source.headers] else []) ++
        source.shownRows.map (source.cells formats)).map (List.map spreadsheetText)) ∧
    ∃ lines, splitLines newline (completeExport formats source .markdown) = (lines, []) ∧
      (∀ line ∈ lines, ascii '\r' ∉ line) ∧
      lines.map readTableRow = ((if source.includeHeaderRow then
        [source.headers.map singleLineText, source.visibleColumns.map fun _ => bytes "---"] else []) ++
        source.shownRows.map fun row =>
          (source.cells formats row).map singleLineText).map some := by
  constructor
  · refine ⟨_, readRecords_csv formats some_, fun record listed => ?_, rfl⟩
    obtain ⟨texts, written, rfl⟩ := List.mem_map.mp listed
    rw [List.length_map]
    exact length_record written
  · -- Every row is a line without a line break in it, so that the lines of the text are the rows.
    have whole : ∀ line ∈ (markdownRows formats source).map tableRow, newline ∉ line ∧
        ascii '\r' ∉ line := by
      intro line listed
      obtain ⟨row, written, rfl⟩ := List.mem_map.mp listed
      obtain ⟨cells, rfl⟩ := mem_markdownRows written
      exact tableRow_singleLine cells
    refine ⟨(markdownRows formats source).map tableRow, ?_, fun line listed =>
      (whole line listed).2, ?_⟩
    · have split := splitLines_joinLines_append newline (fun line listed =>
        (whole line listed).1) []
      rw [List.append_nil] at split
      rw [completeExport_markdown, split]
      simp [splitLines]
    · have rows : markdownRows formats source = (if source.includeHeaderRow then
          [source.headers.map singleLineText, source.visibleColumns.map fun _ => bytes "---"] else []) ++
          source.shownRows.map fun row => (source.cells formats row).map singleLineText := by
        simp [markdownRows, some_]
      rw [← rows, List.map_map]
      exact List.map_congr_left fun cells _ => readTableRow_tableRow cells

/-- A table with one row, whose only cell is a formula with a comma and a bar. -/
def formulaTable : LogTable :=
  (LogTable.run (fun _ _ => none) (.initial ⟨[LogTable.pinnedColumn (bytes "sum") [bytes "sum"]],
    ⟨-1, false⟩⟩)
    [.beginStreaming (some (.file (.ofData (bytes "=a,b|c\n")))),
      .appendBatch ⟨[.ofField 0 0 0 (.mmapSlice 0 6)], [7], [], []⟩]).getD
        (.initial ⟨[], ⟨-1, false⟩⟩)

/-- The formula reads back, between a row that has gone and one that never was. -/
theorem exports_readBack_formula :
    ∃ formats : ValueFormats,
      readRecords (completeExport formats ⟨formulaTable, [-1, 0, 5], [0], true⟩ .csv) = some
        [[bytes "sum"], [bytes "'=a,b|c"]] ∧
      ∃ lines, (splitLines newline (completeExport formats ⟨formulaTable, [-1, 0, 5], [0],
        true⟩ .markdown)).1 = lines ∧
        lines.map readTableRow = [some [bytes "sum"], some [bytes "---"], some [bytes "=a,b|c"]] := by
  refine ⟨⟨fun _ _ => [], fun _ => none, fun _ => none⟩, ?_⟩
  obtain ⟨⟨records, read, -, same⟩, lines, split, -, rows⟩ :=
    exports_readBack ⟨fun _ _ => [], fun _ => none, fun _ => none⟩ ⟨formulaTable, [-1, 0, 5], [0],
      true⟩ (List.cons_ne_nil _ _)
  -- The one row is in range, and its formula comes back with the apostrophe.
  refine ⟨?_, lines, ?_, ?_⟩
  · rw [read, same]
    decide +kernel
  · rw [split]
  · rw [rows]
    decide +kernel

end Loglib
