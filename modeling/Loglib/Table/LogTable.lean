import Loglib.Table.EnumTracking
import Loglib.Table.LogLevel
import Loglib.Table.LogLine

/-! The log table: rows, key index, configuration, dictionaries, and the caches derived
from them. -/

namespace Loglib

/-- First and last line of a multi-line record of a batch. -/
structure MultiLineRecordSpan where
  headerLineId : Nat
  lastLineId : Nat
deriving DecidableEq, Repr

/-- What a parser hands over at a time. Error texts and line numbers are for other readers. -/
structure StreamedBatch where
  lines : List LogLine
  localLineOffsets : List Nat
  newKeys : List Bytes
  multiLineSpans : List MultiLineRecordSpan

/-- The state of a `LogTable` with its `LogData`. -/
structure LogTable where
  lines : List LogLine
  sources : List LineSource
  keys : KeyIndex
  configuration : LogConfiguration
  /-- Cached key ids of each column, `none` for a key that was unknown at the last refresh. -/
  columnKeyIds : List (List (Option KeyId))
  stageBSnapshotTimeKeys : List KeyId
  postSnapshotTimeKeys : List KeyId
  enumDictionaries : EnumDictionaryRegistry
  enumValueCap : Nat
  /-- Longest value to encode, zero for no limit. -/
  enumValueMaxLen : Nat
  enumTrackers : KeyId → Option EnumCandidateTracker
  enumColumnHealth : KeyId → Option EnumColumnHealth
  isStreaming : Bool
  lastBackfillRange : Option (Nat × Nat)
  lastBatchDemotedKeys : List KeyId
  /-- Level of each dictionary id, by the canonical key of a level column. -/
  levelRankCache : KeyId → Option (List LogLevel)
  pendingLevelBubbleKeys : List KeyId

namespace LogTable

/-- The members of a table without data, before any of its caches is built. -/
def ofConfiguration (configuration : LogConfiguration) : LogTable where
  lines := []
  sources := []
  keys := .empty
  configuration := configuration
  columnKeyIds := []
  stageBSnapshotTimeKeys := []
  postSnapshotTimeKeys := []
  enumDictionaries := .empty
  enumValueCap := defaultEnumValueCap
  enumValueMaxLen := maxEnumCandidateLen
  enumTrackers _ := none
  enumColumnHealth _ := none
  isStreaming := false
  lastBackfillRange := none
  lastBatchDemotedKeys := []
  levelRankCache _ := none
  pendingLevelBubbleKeys := []

/-- The columns of the configuration. -/
abbrev columns (table : LogTable) : List Column := table.configuration.columns

/-- What the slots of the table are resolved against. -/
def context (table : LogTable) : SlotContext := ⟨table.sources, table.enumDictionaries⟩

/-- Number of rows. -/
def rowCount (table : LogTable) : Nat := table.lines.length

/-- Number of columns. -/
def columnCount (table : LogTable) : Nat := table.columns.length

section Accessors

/-- The first value a line carries under the ids, skipping unknown ids and empty slots. -/
def firstValue (line : LogLine) (context : SlotContext) : List (Option KeyId) → LogValue
  | [] => .monostate
  | none :: rest => firstValue line context rest
  | some id :: rest =>
    let value := line.getValue context id
    if value.isMonostate then firstValue line context rest else value

/-- The first dictionary id a line carries under the ids. -/
def firstEnumValueId (line : LogLine) : List (Option KeyId) → Option EnumValueId
  | [] => none
  | none :: rest => firstEnumValueId line rest
  | some id :: rest =>
    match line.getEnumValueId id with
    | some vid => some vid
    | none => firstEnumValueId line rest

/-- The value of a cell. -/
def getValue (table : LogTable) (row column : Nat) : LogValue :=
  match table.columnKeyIds[column]?, table.lines[row]? with
  | some ids, some line => firstValue line table.context ids
  | _, _ => .monostate

/-- The dictionary id of a cell. -/
def getEnumValueId (table : LogTable) (row column : Nat) : Option EnumValueId :=
  match table.columnKeyIds[column]?, table.lines[row]? with
  | some ids, some line => firstEnumValueId line ids
  | _, _ => none

/-- `FormatLogValue`: strings are themselves; the other kinds go through the format library. -/
def formatLogValue (vformat : Bytes → LogValue → Bytes) (format : Bytes) : LogValue → Bytes
  | .string text => text
  | .monostate => []
  | value => vformat format value

/-- The value of a cell as text. -/
def getFormattedValue (vformat : Bytes → LogValue → Bytes) (table : LogTable) (row column : Nat) :
    Bytes :=
  match table.columnKeyIds[column]?, table.lines[row]? with
  | some ids, some line =>
    match table.columns[column]? with
    | some shown => formatLogValue vformat shown.printFormat (firstValue line table.context ids)
    | none => []
  | _, _ => []

/-- `GetValueOrFormatted`: string bytes as they are, and other values as text, in one walk. -/
def getValueOrFormatted (vformat : Bytes → LogValue → Bytes) (table : LogTable)
    (row column : Nat) : Bytes :=
  match table.columnKeyIds[column]?, table.lines[row]? with
  | some ids, some line =>
    match firstValue line table.context ids with
    -- A text is shown as it is, every other value in the format of the column.
    | .string text => text
    | .monostate => []
    | value =>
      match table.columns[column]? with
      | some shown => formatLogValue vformat shown.printFormat value
      | none => []
  | _, _ => []

/-- The canonical key of a column and its dictionary, if it has one. -/
def resolveEnumColumn (table : LogTable) (columnIndex : Nat) :
    Option KeyId × Option EnumDictionary :=
  match table.columns[columnIndex]? with
  | none => (none, none)
  | some column =>
    match column.keys.head? with
    | none => (none, none)
    | some key =>
      match table.keys.find key with
      | none => (none, none)
      | some canonical => (some canonical, table.enumDictionaries.find canonical)

/-- `LevelRankCache`: the level of each dictionary id of a level column. -/
def levelRanks (table : LogTable) (columnIndex : Nat) : Option (List LogLevel) :=
  match table.columns[columnIndex]? with
  | none => none
  | some column =>
    -- Ranks are cached by the id of the first key.
    if column.type ≠ .level then none
    else
      match column.keys.head? with
      | none => none
      | some key =>
        match table.keys.find key with
        | none => none
        | some canonical => table.levelRankCache canonical

/-- The level a level column shows for a row; an id past the cache shows `unknown`. -/
def getDisplayLevelForRow (table : LogTable) (row columnIndex : Nat) : Option LogLevel :=
  match table.levelRanks columnIndex with
  | none => none
  | some ranks =>
    match table.getEnumValueId row columnIndex with
    | none => none
    | some id => some (ranks[id]?.getD .unknown)

/-- The level of a row, `none` when it is not known. -/
def getLevelForRow (table : LogTable) (row columnIndex : Nat) : Option LogLevel :=
  match table.getDisplayLevelForRow row columnIndex with
  | some .unknown => none
  | other => other

end Accessors

section KeyIds

/-- The ids of a column's keys as the index knows them now. -/
def resolveKeys (keys : KeyIndex) (column : Column) : List (Option KeyId) :=
  column.keys.map keys.find

/-- `RefreshColumnKeyIds`. -/
def refreshColumnKeyIds (table : LogTable) : LogTable :=
  { table with columnKeyIds := table.columns.map (resolveKeys table.keys) }

/-- Refresh the columns that show a new key or whose cached list has the wrong length. -/
def refreshColumnKeyIdsForKeys (table : LogTable) (newKeys : List Bytes) : LogTable :=
  if newKeys.isEmpty then table
  else
    { table with
      columnKeyIds := table.columns.mapIdx fun columnIndex column =>
        -- `resize` leaves an empty list where the cache had no entry.
        let ids := table.columnKeyIds[columnIndex]?.getD []
        if ids.length ≠ column.keys.length ∨ column.keys.any newKeys.contains then
          resolveKeys table.keys column
        else ids }

/-- Move a column, its cached ids included. -/
def moveColumn (table : LogTable) (srcIndex destIndex : Nat) : LogTable :=
  if srcIndex = destIndex ∨ table.columnKeyIds.length ≤ srcIndex ∨
      table.columnKeyIds.length ≤ destIndex then
    table
  else
    { table with
      configuration := table.configuration.moveColumn srcIndex destIndex
      columnKeyIds := LogConfiguration.moveItem table.columnKeyIds srcIndex destIndex }

/-- The resolved ids of a column, as the enumeration pass walks them. -/
def resolvedKeys (table : LogTable) (columnIndex : Nat) : List KeyId :=
  (table.columnKeyIds[columnIndex]?.getD []).filterMap id

end KeyIds

section Rows

/-- Change the most recently appended file source, `none` when there is no file. -/
def modifyBackFile (change : LogFile → LogFile) : List LineSource → Option (List LineSource)
  | [] => none
  | source :: rest =>
    match modifyBackFile change rest with
    | some changed => some (source :: changed)
    | none =>
      match source with
      | .file file => some (.file (change file) :: rest)
      | .stream _ => none

/-- `LogData::AppendBatch`: rows at the end, offsets and spans to the last file source. -/
def appendLines (table : LogTable) (batch : StreamedBatch) : LogTable :=
  let register (file : LogFile) : LogFile :=
    batch.multiLineSpans.foldl
      (fun file span => file.registerMultiLineRecord span.headerLineId span.lastLineId)
      (file.appendLineOffsets batch.localLineOffsets)
  { table with
    lines := table.lines ++ batch.lines
    sources := (modifyBackFile register table.sources).getD table.sources }

/-- `AppendStreaming`: splice a source in and keep everything else. -/
def appendStreaming (table : LogTable) (source : LineSource) : LogTable :=
  { table with lastBackfillRange := none, sources := table.sources ++ [source] }

/-- Release the lines before a boundary in every source that evicts. -/
def evictSources (sources : List LineSource) (firstSurvivingLineId : Nat) : List LineSource :=
  sources.map fun source =>
    if source.supportsEviction then source.evictBefore firstSurvivingLineId else source

/-- Drop the first rows and release the lines they came from. -/
def evictPrefixRows (table : LogTable) (count : Nat) : LogTable :=
  if count = 0 then table
  else
    match table.lines[count]? with
    | none =>
      -- Past the end: everything goes, up to and including the last row's line.
      let firstSurvivingLineId :=
        match table.lines.getLast? with
        | some last => last.lineId + 1
        | none => 0
      { table with lines := [], sources := evictSources table.sources firstSurvivingLineId }
    | some first =>
      { table with
        lines := table.lines.drop count
        sources := evictSources table.sources first.lineId }

end Rows

end LogTable

end Loglib
