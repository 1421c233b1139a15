import Loglib.Table.AutoDetection

/-! The public operations of the table, and runs of them in any order. -/

namespace Loglib

namespace LogTable

/-- A table constructed without data: dictionaries and ids of the configured columns. -/
def initial (configuration : LogConfiguration) : LogTable :=
  (ofConfiguration configuration).refreshSnapshotEnumKeys.refreshColumnKeyIds

/-- `BeginStreaming`: start over with at most one source, and snapshot the configured keys. -/
def beginStreaming (table : LogTable) (source : Option LineSource) : LogTable :=
  let fresh : LogTable :=
    { table with
      lines := []
      sources := source.toList
      keys := .empty
      enumDictionaries := .empty
      enumTrackers := fun _ => none
      enumColumnHealth := fun _ => none
      isStreaming := true
      lastBackfillRange := none
      lastBatchDemotedKeys := []
      levelRankCache := fun _ => none
      pendingLevelBubbleKeys := [] }
  fresh.refreshSnapshotTimeKeys.refreshSnapshotEnumKeys.refreshColumnKeyIds

/-- The part of `AppendBatch` before the enumeration pass: columns, rows, ids and timestamps. -/
def appendBatchRows (parse : TimestampParser) (table : LogTable) (batch : StreamedBatch) :
    BackfillWalk :=
  let oldLineCount := table.lines.length
  -- What the batch before has left is dropped, and the new keys get their columns.
  let table :=
    { table with
      lastBackfillRange := none
      lastBatchDemotedKeys := []
      pendingLevelBubbleKeys := []
      configuration := table.configuration.appendKeys batch.newKeys }
  let table := (table.appendLines batch).refreshColumnKeyIdsForKeys batch.newKeys
  -- The columns in order; each may parse its cells as times.
  table.columns.zipIdx.foldl
    (fun walk (column, columnIndex) => backfillColumn parse oldLineCount walk columnIndex column)
    ⟨table, none, none⟩

/-- `AppendBatch`. -/
def appendBatch (parse : TimestampParser) (table : LogTable) (batch : StreamedBatch) :
    Option LogTable :=
  (runEnumPass table.lines.length (table.appendBatchRows parse batch)).map fun walk =>
    { walk.table with
      lastBackfillRange :=
        match walk.firstBackfilled, walk.lastBackfilled with
        | some first, some last => some (first, last)
        | _, _ => walk.table.lastBackfillRange }

/-- Register keys, as the parser does for the fields it meets. -/
def internKeys (table : LogTable) (names : List Bytes) : LogTable :=
  { table with keys := names.foldl (fun keys name => (keys.getOrInsert name).1) table.keys }

/-- Change one source, as the parser that feeds it does. -/
def modifySource (table : LogTable) (source : Nat) (change : LineSource → LineSource) : LogTable :=
  { table with sources := table.sources.modify source change }

/-- A column turned into a time column: default formats, then every row. -/
def enterTime (parse : TimestampParser) (table : LogTable) (columnIndex : Nat) : LogTable :=
  let seeded :=
    { table with configuration := table.configuration.seedTimeFormats columnIndex }
  match seeded.columns[columnIndex]? with
  | none => seeded
  | some column => seeded.backfillTimestampColumn parse column 0

/-- A column turned into a dictionary column: seed the dictionary and encode every row. -/
def enterEnum (table : LogTable) (columnIndex : Nat) (column : Column)
    (previousType : ColumnType) : Option LogTable :=
  let table := table.refreshSnapshotEnumKeys.refreshColumnKeyIds
  match column.keys.head?.bind table.keys.find with
  | none => some table
  | some canonical =>
    -- A fresh promotion starts with a clean budget.
    let health :=
      if previousType.isEnumLike then (table.enumColumnHealth canonical).getD .empty else .empty
    let table :=
      { table with
        enumColumnHealth := Function.update table.enumColumnHealth canonical (some health) }
    let (encoded, encodeOk) :=
      table.encodeColumnRange (table.registeredKeys column) 0 canonical
    if encodeOk = false then encoded.demoteColumnFromEnum columnIndex false
    else some (encoded.refreshLevelRankCache columnIndex)

/-- A column turned into a plain column: drop time formats and dictionary state. -/
def enterPlain (table : LogTable) (columnIndex : Nat) (column : Column)
    (previousType : ColumnType) : Option LogTable :=
  let table :=
    { table with
      configuration := table.configuration.dropTimeFormats columnIndex previousType }
  match column.keys.head?.bind table.keys.find with
  | none => some table
  | some canonical =>
    let demoted : Option LogTable :=
      match table.enumDictionaries.find canonical with
      | none => some table
      | some _ =>
        -- The demotion only accepts a dictionary column, so the type is lent and restored.
        ((table.setColumnType columnIndex .enumeration).demoteColumnFromEnum columnIndex false).map
          (·.setColumnType columnIndex column.type)
    demoted.map fun (table : LogTable) =>
      { table with
        enumColumnHealth := Function.update table.enumColumnHealth canonical none
        levelRankCache := Function.update table.levelRankCache canonical none }

/-- `OnUserChangedColumnType`, after the configuration already has the new type. -/
def onUserChangedColumnType (parse : TimestampParser) (table : LogTable) (columnIndex : Nat)
    (previousType : ColumnType) : Option LogTable :=
  match table.columns[columnIndex]? with
  | none => some table
  | some column =>
    let enumTrackers :=
      match column.keys.head?.bind table.keys.find with
      | some canonical => Function.update table.enumTrackers canonical none
      | none => table.enumTrackers
    let table := { table with enumTrackers := enumTrackers }.refreshColumnKeyIds
    match column.type with
    | .time => some (table.enterTime parse columnIndex)
    | .enumeration => table.enterEnum columnIndex column previousType
    | .level => table.enterEnum columnIndex column previousType
    | _ => table.enterPlain columnIndex column previousType

/-- The edit of a column's type and the table's follow-up, before any rescan. -/
def retypeColumn (parse : TimestampParser) (table : LogTable) (columnIndex : Nat)
    (newType : ColumnType) (newAutoDetect : Bool) (previousType : ColumnType) : Option LogTable :=
  onUserChangedColumnType parse
    { table with
      configuration := table.configuration.setColumnTypePair columnIndex newType newAutoDetect }
    columnIndex previousType

/-- A user's choice of type, with a rescan when the choice is to detect it. -/
def applyColumnTypeEdit (parse : TimestampParser) (table : LogTable) (columnIndex : Nat)
    (newType : ColumnType) (newAutoDetect : Bool) : Option LogTable :=
  match table.columns[columnIndex]? with
  | none => some table
  | some before =>
    if before.type = newType ∧ before.autoDetect = newAutoDetect then some table
    else
      match table.retypeColumn parse columnIndex newType newAutoDetect before.type with
      | none => none
      | some changed =>
        if newType = .any ∧ newAutoDetect then changed.rescanColumnForAutoDetection columnIndex
        else some changed

end LogTable

/-- One operation on a table, or one write of a parser to a source the table owns. -/
inductive TableOp where
  | beginStreaming (source : Option LineSource)
  | appendStreaming (source : LineSource)
  /-- A parser hands over a batch, with the keys it has registered since the last one. -/
  | appendBatch (batch : StreamedBatch)
  /-- A stream parser stores a line and its decoded bytes. -/
  | parserLine (source : Nat) (rawLine ownedBytes : Bytes)
  /-- A file parser stores decoded bytes. -/
  | parserOwned (source : Nat) (text : Bytes)
  | moveColumn (srcIndex destIndex : Nat)
  | applyPendingLevelBubbles
  | finalizeAutoDetection
  | rescanColumnForAutoDetection (columnIndex : Nat)
  | applyColumnTypeEdit (columnIndex : Nat) (type : ColumnType) (autoDetect : Bool)
  | evictPrefixRows (count : Nat)
  | setEnumValueCap (cap : Nat)
  | setEnumValueMaxLen (maxLen : Nat)

namespace LogTable

/-- One operation. `none` stands for an exception that leaves the operation. -/
def step (parse : TimestampParser) (table : LogTable) : TableOp → Option LogTable
  | .beginStreaming source => some (table.beginStreaming source)
  | .appendStreaming source => some (table.appendStreaming source)
  | .appendBatch batch => (table.internKeys batch.newKeys).appendBatch parse batch
  | .parserLine source rawLine ownedBytes =>
    some (table.modifySource source fun
      | .stream backing => .stream (backing.appendLine rawLine ownedBytes).1
      | .file backing => .file backing)
  | .parserOwned source text =>
    some (table.modifySource source fun
      | .file backing => .file (backing.appendOwnedStrings text).1
      | .stream backing => .stream backing)
  | .moveColumn srcIndex destIndex => some (table.moveColumn srcIndex destIndex)
  | .applyPendingLevelBubbles => some table.applyPendingLevelBubbles
  | .finalizeAutoDetection => table.finalizeAutoDetection
  | .rescanColumnForAutoDetection columnIndex => table.rescanColumnForAutoDetection columnIndex
  | .applyColumnTypeEdit columnIndex type autoDetect =>
    table.applyColumnTypeEdit parse columnIndex type autoDetect
  | .evictPrefixRows count => some (table.evictPrefixRows count)
  | .setEnumValueCap cap => some { table with enumValueCap := clampCap cap }
  | .setEnumValueMaxLen maxLen => some { table with enumValueMaxLen := maxLen }

/-- A run of operations, `none` once an operation throws. -/
def run (parse : TimestampParser) (table : LogTable) (ops : List TableOp) : Option LogTable :=
  ops.foldlM (step parse) table

end LogTable

end Loglib
