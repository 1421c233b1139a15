import Loglib.Basic.Runs
import Loglib.Table.PreviewAppend

/-! The table model of the window: a log table, and what the model caches about its
columns and rows. -/

namespace Loglib

namespace LogConfiguration

/-- `FirstTimeColumnIndex`. -/
def firstTimeColumnIndex (config : LogConfiguration) : Option Nat := config.columns.findIdx?
    (·.type = .time)

/-- `ComputeFirstLevelColumnIndex`. -/
def firstLevelColumnIndex (config : LogConfiguration) : Option Nat := config.columns.findIdx?
    (·.type = .level)

end LogConfiguration

namespace LogTable

/-- `Reset`: no data, and dictionaries for the configured columns. -/
def reset (table : LogTable) : LogTable :=
  let bare : LogTable :=
    { table with
      lines := []
      sources := []
      keys := .empty
      stageBSnapshotTimeKeys := []
      postSnapshotTimeKeys := []
      enumDictionaries := .empty
      enumTrackers := fun _ => none
      enumColumnHealth := fun _ => none
      levelRankCache := fun _ => none
      pendingLevelBubbleKeys := []
      isStreaming := false
      lastBackfillRange := none
      lastBatchDemotedKeys := [] }
  -- The layout stays, so the caches of its keys are built again.
  bare.refreshColumnKeyIds.refreshSnapshotEnumKeys

/-- `OnConfigurationReloaded`, with the configuration that has been loaded. -/
def reloadConfiguration (table : LogTable) (configuration : LogConfiguration) : LogTable :=
  ({ table with configuration } : LogTable).refreshColumnKeyIds.refreshSnapshotEnumKeys

/-- `FindColumnIndexByKey`. -/
def findColumnIndexByKey (table : LogTable) (key : KeyId) : Option Nat :=
  table.columns.findIdx? fun column => column.keys.any fun name => table.keys.find name = some key

end LogTable

/-- `EnumColumnsChangeReason`. -/
inductive EnumColumnsChangeReason where
  | promoted
  | grew
  | demoted
deriving DecidableEq, Repr

/-- The members of `LogModel` that its answers about columns and timestamps come from. -/
structure LogModel where
  table : LogTable
  /-- Zero for no limit. -/
  retentionCap : Nat
  streamingActive : Bool
  timestampsMonotonic : Bool
  lastAppendedTimestampMicros : Option Int
  /-- `none` before the first scan, and an index or none behind it. -/
  firstLevelColumnCache : Option (Option Nat)

/-- Whether a handler of the n-th signal of a call asks for the level column. -/
abbrev SignalReads := Nat → Bool

namespace LogModel

/-- A model that has loaded nothing. -/
def ofConfiguration (configuration : LogConfiguration) : LogModel :=
  ⟨.initial configuration, 0, false, true, none, none⟩

/-- `FirstLevelColumnIndex`: the cached index, after a scan where there is none. -/
def firstLevelColumnIndex (model : LogModel) : Option Nat :=
  model.firstLevelColumnCache.getD model.table.configuration.firstLevelColumnIndex

/-- The scan fills the cache. -/
def scanLevelColumn (model : LogModel) : LogModel :=
  { model with firstLevelColumnCache := some model.firstLevelColumnIndex }

/-- A signal, whose handlers may ask for the level column. -/
def signal (model : LogModel) (asks : Bool) : LogModel :=
  if asks then model.scanLevelColumn else model

/-- `MoveColumn`. -/
def moveColumn (model : LogModel) (srcIndex destIndex : Nat) (asks : Bool) : LogModel :=
  if srcIndex = destIndex ∨ model.table.columnCount ≤ srcIndex ∨
    model.table.columnCount ≤ destIndex then model
  else
    ({ model with
      table := model.table.moveColumn srcIndex destIndex
      firstLevelColumnCache := none } : LogModel).signal asks

section Timestamps

/-- Timestamps of new rows, after the last valid one of the batch: whether none of them goes back,
and the last valid one of all batches. -/
def checkTimestamps (lastAppended : Option Int) : Option Int → List (Option Int) → Bool × Option Int
  | lastInBatch, [] => (true, lastInBatch.or lastAppended)
  | lastInBatch, none :: rest => checkTimestamps lastAppended lastInBatch rest
  | none, some ts :: rest =>
    if ∃ last ∈ lastAppended, ts < last then (false, some ts)
    else checkTimestamps lastAppended (some ts) rest
  | some runningMax, some ts :: rest =>
    if ts < runningMax then (false, some ts) else checkTimestamps lastAppended (some ts) rest

/-- The timestamp that a row shows in a column. -/
def timestampAt (table : LogTable) (column row : Nat) : Option Int :=
  (table.getValue row column).asEpochMicroseconds

/-- `UpdateTimestampMonotonicity` over the rows from an index on. -/
def updateTimestampMonotonicity (model : LogModel) (firstNewRow : Nat) : LogModel :=
  if model.timestampsMonotonic = false ∨ model.table.rowCount ≤ firstNewRow then model
  else
    match model.table.configuration.firstTimeColumnIndex with
    | none => model
    | some timeCol =>
      let rows := List.range' firstNewRow (model.table.rowCount - firstNewRow)
      let (monotonic, last) := checkTimestamps model.lastAppendedTimestampMicros none
        (rows.map (timestampAt model.table timeCol))
      { model with timestampsMonotonic := monotonic, lastAppendedTimestampMicros := last }

end Timestamps

section Batches

/-- The head of a giant batch is dropped before it lands. -/
def collapseBatch (model : LogModel) (batch : StreamedBatch) : StreamedBatch :=
  if model.retentionCap ≠ 0 ∧ model.retentionCap < batch.lines.length then
    { batch with lines := batch.lines.drop (batch.lines.length - model.retentionCap) }
  else batch

/-- How many of the oldest rows make room for the batch. -/
def dropCount (model : LogModel) (batch : StreamedBatch) : Nat :=
  let newRowCount := (model.table.previewAppend batch).newRowCount
  if model.retentionCap ≠ 0 ∧ model.retentionCap < newRowCount then
    min (newRowCount - model.retentionCap) model.table.rowCount
  else 0

/-- The model whose rows make room for a batch. -/
def evictFor (model : LogModel) (batch : StreamedBatch) : LogModel :=
  { model with table := model.table.evictPrefixRows (model.dropCount batch) }

/-- The cache is emptied before the table takes the batch, and restored where the index is
the same. -/
def takeBatch (parse : TimestampParser) (model : LogModel) (batch : StreamedBatch) :
    Option LogModel :=
  let firstLevelColumnBefore := model.table.configuration.firstLevelColumnIndex
  let oldRowCount := model.table.rowCount
  ((model.table.internKeys batch.newKeys).appendBatch parse batch).map fun table =>
    let model := ({ model with table } : LogModel).updateTimestampMonotonicity oldRowCount
    { model with
      firstLevelColumnCache :=
        if table.configuration.firstLevelColumnIndex = firstLevelColumnBefore then some
          firstLevelColumnBefore
        else none }

/-- The columns from an index on that became time columns with the batch. -/
def newTimestampColumnIndices (model : LogModel) (oldColumnCount newColumnCount : Nat) : List Nat :=
  (List.range' oldColumnCount (newColumnCount - oldColumnCount)).filter fun columnIndex =>
    (model.table.columns[columnIndex]?.map (·.type)) = some .time

/-- Each new time column moves to the front, the first one first. The table moves it, not
the model. -/
def bubbleTimeColumns (asks : SignalReads) : Nat → LogModel → List Nat → LogModel
  | _, model, [] => model
  | signals, model, srcIndex :: rest =>
    if srcIndex = 0 then bubbleTimeColumns asks signals model rest
    else
      let moved := ({ model with table := model.table.moveColumn srcIndex 0 } : LogModel).signal
        (asks signals)
      bubbleTimeColumns asks (signals + 1) moved rest

/-- The position of a level column that still has to move to its canonical slot. -/
def levelBubbleSource (table : LogTable) (key : KeyId) : Option Nat :=
  (table.findColumnIndexByKey key).filter (table.configuration.shouldBubbleLevelColumn ·)

/-- Promoted level columns move to their canonical slot. -/
def bubbleLevelColumns (asks : SignalReads) : Nat → LogModel → List KeyId → LogModel
  | _, model, [] => model
  | signals, model, key :: rest =>
    match levelBubbleSource model.table key with
    | none => bubbleLevelColumns asks signals model rest
    | some srcIndex =>
      bubbleLevelColumns asks (signals + 1)
        (model.moveColumn srcIndex LogConfiguration.canonicalLevelColumnIndex (asks signals)) rest

/-- Drain the level columns that the table has queued. -/
def drainLevelBubbles (asks : SignalReads) (signals : Nat) (model : LogModel) : LogModel :=
  bubbleLevelColumns asks signals
    { model with table := { model.table with pendingLevelBubbleKeys := [] } }
    model.table.pendingLevelBubbleKeys

/-- The new time columns and the promoted level columns move, once the table has the batch. -/
def arrangeColumns (asks : SignalReads) (oldColumnCount newColumnCount : Nat) (model : LogModel) :
    LogModel :=
  let signalled := model.signal (asks 0)
  let timed := bubbleTimeColumns asks 1 signalled
    (signalled.newTimestampColumnIndices oldColumnCount newColumnCount)
  timed.drainLevelBubbles asks (newColumnCount + 1)

/-- `AppendBatch`. The parser has registered the keys of the batch. -/
def appendBatch (parse : TimestampParser) (asks : SignalReads) (model : LogModel)
    (batch : StreamedBatch) :
    Option LogModel :=
  let batch := model.collapseBatch batch
  let newColumnCount := (model.table.previewAppend batch).newColumnCount
  ((model.evictFor batch).takeBatch parse batch).map
    (arrangeColumns asks model.table.columnCount newColumnCount)

end Batches

/-- `EndStreaming`. -/
def endStreaming (asks : SignalReads) (model : LogModel) (cancelled : Bool) : Option LogModel :=
  let model := { model with streamingActive := false }
  if cancelled then some model
  else
    model.table.finalizeAutoDetection.map fun table =>
      (({ model with table } : LogModel).signal (asks 0)).drainLevelBubbles asks 1

/-- `BeginStreaming` and its siblings. -/
def beginStreaming (model : LogModel) (source : Option LineSource) : LogModel :=
  { model with
    table := model.table.beginStreaming source
    retentionCap := 0
    streamingActive := true
    timestampsMonotonic := true
    lastAppendedTimestampMicros := none }

/-- `Reset`. -/
def reset (model : LogModel) : LogModel :=
  { model with
    table := model.table.reset
    streamingActive := false
    timestampsMonotonic := true
    lastAppendedTimestampMicros := none
    firstLevelColumnCache := none }

/-- `SetRetentionCap`: visible rows are trimmed while the stream runs. -/
def setRetentionCap (model : LogModel) (cap : Nat) (paused : Bool) : LogModel :=
  let model := { model with retentionCap := cap }
  if cap = 0 ∨ model.streamingActive = false ∨ paused then model
  else if cap < model.table.rowCount then
    { model with table := model.table.evictPrefixRows (model.table.rowCount - cap) }
  else model

/-- `ApplyColumnTypeEdit`. -/
def applyColumnTypeEdit (parse : TimestampParser) (model : LogModel) (columnIndex : Nat)
    (type : ColumnType)
    (autoDetect : Bool) : Option LogModel :=
  match model.table.columns[columnIndex]? with
  | none => some model
  | some before =>
    if before.type = type ∧ before.autoDetect = autoDetect then some model
    else
      (model.table.applyColumnTypeEdit parse columnIndex type autoDetect).map fun table =>
        { model with table, firstLevelColumnCache := none }

/-- A column edit from outside that changes nothing the table reads, but may change the type. -/
def notifyColumnEdited (model : LogModel) (columnIndex : Nat) : LogModel :=
  if model.table.columnCount ≤ columnIndex then model
    else { model with firstLevelColumnCache := none }

/-- `NotifyConfigurationReplaced`. -/
def notifyConfigurationReplaced (model : LogModel) (configuration : LogConfiguration) : LogModel :=
  { model with
    table := model.table.reloadConfiguration configuration
    firstLevelColumnCache := none }

end LogModel

/-- One operation on the model, one write of a parser to a source of its table, or a question for
the level column. -/
inductive ModelOp where
  | beginStreaming (source : Option LineSource)
  | appendStreaming (source : LineSource)
  | parserLine (source : Nat) (rawLine ownedBytes : Bytes)
  | parserOwned (source : Nat) (text : Bytes)
  | appendBatch (asks : SignalReads) (batch : StreamedBatch)
  | endStreaming (asks : SignalReads) (cancelled : Bool)
  | reset
  | moveColumn (srcIndex destIndex : Nat) (asks : Bool)
  | applyColumnTypeEdit (columnIndex : Nat) (type : ColumnType) (autoDetect : Bool)
  | notifyColumnEdited (columnIndex : Nat)
  | notifyConfigurationReplaced (configuration : LogConfiguration)
  | setRetentionCap (cap : Nat) (paused : Bool)
  | firstLevelColumnIndex

namespace LogModel

/-- One operation. `none` stands for an exception that leaves the operation. -/
def step (parse : TimestampParser) (model : LogModel) : ModelOp → Option LogModel
  | .beginStreaming source => some (model.beginStreaming source)
  | .appendStreaming source =>
    some { model with table := model.table.appendStreaming source, streamingActive := true }
  | .parserLine source rawLine ownedBytes =>
    (model.table.step parse (.parserLine source rawLine ownedBytes)).map fun table =>
      { model with table }
  | .parserOwned source text =>
    (model.table.step parse (.parserOwned source text)).map fun table => { model with table }
  | .appendBatch asks batch => model.appendBatch parse asks batch
  | .endStreaming asks cancelled => model.endStreaming asks cancelled
  | .reset => some model.reset
  | .moveColumn srcIndex destIndex asks => some (model.moveColumn srcIndex destIndex asks)
  | .applyColumnTypeEdit columnIndex type autoDetect =>
    model.applyColumnTypeEdit parse columnIndex type autoDetect
  | .notifyColumnEdited columnIndex => some (model.notifyColumnEdited columnIndex)
  | .notifyConfigurationReplaced configuration =>
    some (model.notifyConfigurationReplaced configuration)
  | .setRetentionCap cap paused => some (model.setRetentionCap cap paused)
  | .firstLevelColumnIndex => some model.scanLevelColumn

/-- A run of operations, `none` once an operation throws. -/
def run (parse : TimestampParser) (model : LogModel) (ops : List ModelOp) : Option LogModel :=
  ops.foldlM (step parse) model

end LogModel

end Loglib
