import Loglib.App.AnchorManager
import Loglib.App.HistogramBucketIndex
import Loglib.App.LogModel

/-! The histogram of a log: buckets of its rows, and the anchor colours that fall into
each bucket. -/

namespace Loglib

/-- What the histogram reads of the log model: its table, and the canonical locator of
each source. -/
structure HistogramSource where
  table : LogTable
  locators : Nat → Bytes

namespace HistogramSource

/-- `AnchorKeyForRow`, `none` past the last row. -/
def anchorKeyForRow (source : HistogramSource) (row : Nat) : Option AnchorKey :=
  source.table.lines[row]?.map fun line => ⟨source.locators line.source, line.lineId⟩

/-- `SourceRowForAnchorKey`: the first row with the key. -/
def sourceRowForAnchorKey (source : HistogramSource) (key : AnchorKey) : Option Nat :=
  (List.range source.table.rowCount).find? fun row => source.anchorKeyForRow row = some key

/-- `AnchorSlotForRow`. -/
def anchorSlotForRow (source : HistogramSource) (anchors : AnchorManager) (row : Nat) :
    Option AnchorColor :=
  if anchors.entries.isEmpty then none else (source.anchorKeyForRow row).bind anchors.colorFor

end HistogramSource

/-- The colours of the anchors in a bucket. -/
abbrev AnchorSlotMask := Finset AnchorColor

/-- The members of `HistogramModel` but for its timer and the first rows it caches for clicks. -/
structure HistogramModel where
  source : HistogramSource
  anchors : AnchorManager
  index : HistogramBucketIndex
  timeColumnIndex : Option Nat
  levelColumnIndex : Option Nat
  bucketSizePinned : Bool
  anchorSlotPerBucket : List AnchorSlotMask
  anchorBucketBitsSet : Nat

namespace HistogramModel

/-- `TimeStampForRow`. -/
def timeStampForRow (model : HistogramModel) (row : Nat) : Option Int :=
  model.timeColumnIndex.bind fun column => LogModel.timestampAt model.source.table column row

/-- `LevelForRow`. -/
def levelForRow (model : HistogramModel) (row : Nat) : LogLevel :=
  match model.levelColumnIndex with
  | none => .unknown
  | some column => (model.source.table.getLevelForRow row column).getD .unknown

section Anchors

/-- `SyncAnchorBucketVectorSize`. -/
def syncAnchorBucketVectorSize (model : HistogramModel) : HistogramModel :=
  let bucketCount := model.index.buckets.length
  { model with
    anchorSlotPerBucket := model.anchorSlotPerBucket.take bucketCount ++
      List.replicate (bucketCount - model.anchorSlotPerBucket.length) ∅
    anchorBucketBitsSet := model.anchorBucketBitsSet -
      ((model.anchorSlotPerBucket.drop bucketCount).map Finset.card).sum }

/-- Set the bit of a colour in a bucket that has a mask, and count it if it is new. -/
def setAnchorBit (model : HistogramModel) (bucket : Nat) (slot : AnchorColor) : HistogramModel :=
  match model.anchorSlotPerBucket[bucket]? with
  | none => model
  | some mask =>
    if slot ∈ mask then model
    else
      { model with
        anchorSlotPerBucket := model.anchorSlotPerBucket.set bucket (insert slot mask)
        anchorBucketBitsSet := model.anchorBucketBitsSet + 1 }

/-- The bucket of an anchored row, by its key. -/
def bucketOfKey (model : HistogramModel) (key : AnchorKey) : Option Nat :=
  ((model.source.sourceRowForAnchorKey key).bind model.timeStampForRow).bind model.index.bucketOf

/-- `UpdateAnchorSlotForKey`. -/
def updateAnchorSlotForKey (model : HistogramModel) (key : AnchorKey) : HistogramModel :=
  match model.bucketOfKey key, model.anchors.colorFor key with
  | some bucket, some slot => model.setAnchorBit bucket slot
  | _, _ => model

/-- `RebuildAnchorBuckets`. -/
def rebuildAnchorBuckets (model : HistogramModel) : HistogramModel :=
  let cleared :=
    ({ model with anchorSlotPerBucket := [], anchorBucketBitsSet := 0 } :
      HistogramModel).syncAnchorBucketVectorSize
  if cleared.timeColumnIndex.isNone then cleared
  else
    (model.anchors.entriesIncludingRuntimeOnly.map Prod.fst).foldl updateAnchorSlotForKey cleared

/-- The colours of the anchors whose rows lie in a bucket. -/
def colorsInBucket (model : HistogramModel) (bucket : Nat) : AnchorSlotMask :=
  ((model.anchors.entriesIncludingRuntimeOnly.filter fun entry =>
    model.bucketOfKey entry.1 = some bucket).map fun entry => entry.2.colorIndex).toFinset

/-- `OnAnchorChanged`: rebuild the bucket of the key, or all of them where it has none. -/
def onAnchorChanged (model : HistogramModel) (key : AnchorKey) : HistogramModel :=
  let model := model.syncAnchorBucketVectorSize
  match model.bucketOfKey key with
  -- A key without a row, or with one outside the buckets: its old bucket is not known.
  | none => model.rebuildAnchorBuckets
  | some bucket =>
    match model.anchorSlotPerBucket[bucket]? with
    -- The buckets have gone in the meantime.
    | none => model
    | some previous =>
      let mask := model.colorsInBucket bucket
      { model with
        anchorSlotPerBucket := model.anchorSlotPerBucket.set bucket mask
        anchorBucketBitsSet := model.anchorBucketBitsSet - previous.card + mask.card }

/-- Handlers of the manager's signals. -/
def onAnchorSignal (model : HistogramModel) : AnchorSignal → HistogramModel
  | .anchorChanged key => model.onAnchorChanged key
  | .anchorsReset => model.rebuildAnchorBuckets

end Anchors

section Rows

/-- One row of `AppendRange`: count it, and set the bit of its anchor. -/
def appendRow (trackAnchors : Bool) (model : HistogramModel) (row : Nat) : HistogramModel :=
  match model.timeStampForRow row with
  | none => model
  | some ts =>
    let counted := { model with index := model.index.addRow ts (model.levelForRow row) }
    if trackAnchors = false then counted
    else
      match counted.source.anchorSlotForRow counted.anchors row, counted.index.bucketOf ts with
      | some slot, some bucket => counted.syncAnchorBucketVectorSize.setAnchorBit bucket slot
      | _, _ => counted

/-- `AppendRange` over the rows from `first` to `last`. -/
def appendRange (model : HistogramModel) (first last : Nat) : HistogramModel :=
  if model.timeColumnIndex.isNone then model
  else
    let stop := min (last + 1) model.source.table.rowCount
    ((List.range' first (stop - first)).foldl (appendRow !model.anchors.entries.isEmpty)
      model).syncAnchorBucketVectorSize

/-- `Rebuild`. -/
def rebuild (model : HistogramModel) : HistogramModel :=
  let bare : HistogramModel := { model with index := model.index.reset }
  if bare.timeColumnIndex.isNone then bare.syncAnchorBucketVectorSize.rebuildAnchorBuckets
  else
    let rowCount := bare.source.table.rowCount
    let filled := if 0 < rowCount then bare.appendRange 0 (rowCount - 1) else bare
    filled.rebuildAnchorBuckets

/-- The least and the greatest of some timestamps, if there are any. -/
def walkRange : List (Option Int) → Option (Int × Int)
  | [] => none
  | none :: rest => walkRange rest
  | some ts :: rest =>
    match walkRange rest with
    | none => some (ts, ts)
    | some (walkedMin, walkedMax) => some (min ts walkedMin, max ts walkedMax)

/-- `ObservedRange`. -/
def observedRange (model : HistogramModel) : Option (Int × Int) :=
  if model.timeColumnIndex.isNone then none
  else if model.index.buckets.isEmpty then
    walkRange ((List.range model.source.table.rowCount).map model.timeStampForRow)
  else some (model.index.minTimestamp, model.index.maxTimestamp)

/-- `ApplyAutoBucketSize`. -/
def applyAutoBucketSize (model : HistogramModel) : HistogramModel :=
  if model.bucketSizePinned then model
  else
    match model.observedRange with
    | none => model
    | some (first, last) =>
      let picked := HistogramBucketIndex.autoBucketSize first last
        HistogramBucketIndex.defaultVisibleBucketBudget
      if picked = model.index.bucketSize then model
      else ({ model with index := model.index.setBucketSize picked } : HistogramModel).rebuild

/-- `SetBucketSize`. -/
def setBucketSize (model : HistogramModel) (size : HistogramBucketSize) : HistogramModel :=
  let pinned := { model with bucketSizePinned := true }
  if pinned.index.bucketSize = size then pinned
  else ({ pinned with index := pinned.index.setBucketSize size } : HistogramModel).rebuild

/-- `ResetBucketSizeToAuto`. -/
def resetBucketSizeToAuto (model : HistogramModel) : HistogramModel :=
  ({ model with bucketSizePinned := false } : HistogramModel).applyAutoBucketSize

/-- The first time column and the first level column of the source as it is now. -/
def refreshColumns (model : HistogramModel) : HistogramModel :=
  { model with
    timeColumnIndex := model.source.table.configuration.firstTimeColumnIndex
    levelColumnIndex := model.source.table.configuration.firstLevelColumnIndex }

/-- The cached columns are still the first ones of their kinds. -/
def columnsStand (model : HistogramModel) : Bool :=
  model.source.table.configuration.firstTimeColumnIndex = model.timeColumnIndex ∧
    model.source.table.configuration.firstLevelColumnIndex = model.levelColumnIndex

/-- `OnRowsInserted`. -/
def onRowsInserted (model : HistogramModel) (first last : Nat) : HistogramModel :=
  if model.columnsStand = false then model.refreshColumns.rebuild.applyAutoBucketSize
  else if model.timeColumnIndex.isNone then model
  else model.appendRange first last

/-- `OnRowsRemoved`. -/
def onRowsRemoved (model : HistogramModel) : HistogramModel := model.rebuild

/-- `OnModelReset`. -/
def onModelReset (model : HistogramModel) : HistogramModel :=
  ({ model.refreshColumns with bucketSizePinned := false } :
    HistogramModel).rebuild.applyAutoBucketSize

/-- `OnEnumColumnsChanged`. -/
def onEnumColumnsChanged (model : HistogramModel) : HistogramModel :=
  if model.columnsStand then model else model.refreshColumns.rebuild

/-- `OnColumnsMoved`. -/
def onColumnsMoved (model : HistogramModel) : HistogramModel :=
  if model.columnsStand then model else model.refreshColumns.rebuild.applyAutoBucketSize

end Rows

/-- The constructor. -/
def ofSources (source : HistogramSource) (anchors : AnchorManager) : HistogramModel :=
  (⟨source, anchors, .ofSize .oneMinute, none, none, false, [], 0⟩ : HistogramModel).onModelReset

end HistogramModel

/-- A change of the anchors. -/
inductive AnchorOp where
  | setAnchor (key : AnchorKey) (colorIndex : UInt8)
  | setAnchors (keys : List AnchorKey) (colorIndex : UInt8)
  | removeAnchor (key : AnchorKey)
  | removeAnchors (keys : List AnchorKey)
  | clearAll

/-- The anchors after a change, and the signal about it. -/
def AnchorManager.apply (anchors : AnchorManager) : AnchorOp → AnchorManager × Option AnchorSignal
  | .setAnchor key colorIndex => anchors.setAnchor key colorIndex
  | .setAnchors keys colorIndex => anchors.setAnchors keys colorIndex
  | .removeAnchor key => anchors.removeAnchor key
  | .removeAnchors keys => anchors.removeAnchors keys
  | .clearAll => anchors.clearAll

/-- A change is announced. -/
theorem AnchorManager.apply_announces (anchors : AnchorManager) (op : AnchorOp) :
    Announces anchors (anchors.apply op) := by
  cases op with
  | setAnchor key colorIndex => exact setAnchor_announces _ key colorIndex
  | setAnchors keys colorIndex => exact setAnchors_announces _ keys colorIndex
  | removeAnchor key => exact removeAnchor_announces _ key
  | removeAnchors keys => exact removeAnchors_announces _ keys
  | clearAll => exact clearAll_announces _

/-- A signal of the log model, with the source as it is by then, or a request. The histogram listens
to no signal that is `unfollowed`: `dataChanged`, `columnsInserted` and the like. -/
inductive HistogramEvent where
  | rowsInserted (source : HistogramSource) (first last : Nat)
  | rowsRemoved (source : HistogramSource)
  | columnsMoved (source : HistogramSource)
  | enumColumnsChanged (source : HistogramSource)
  | modelReset (source : HistogramSource)
  | unfollowed (source : HistogramSource)
  | setBucketSize (size : HistogramBucketSize)
  | resetBucketSizeToAuto
  | changeAnchors (op : AnchorOp)

namespace HistogramModel

/-- One event. -/
def step (model : HistogramModel) : HistogramEvent → HistogramModel
  | .rowsInserted source first last => onRowsInserted { model with source } first last
  | .rowsRemoved source => onRowsRemoved { model with source }
  | .columnsMoved source => onColumnsMoved { model with source }
  | .enumColumnsChanged source => onEnumColumnsChanged { model with source }
  | .modelReset source => onModelReset { model with source }
  | .unfollowed source => { model with source }
  | .setBucketSize size => model.setBucketSize size
  | .resetBucketSizeToAuto => model.resetBucketSizeToAuto
  | .changeAnchors op =>
    let (anchors, signal) := model.anchors.apply op
    match signal with
    | none => { model with anchors }
    | some signal => onAnchorSignal { model with anchors } signal

/-- A run of events. -/
def run (model : HistogramModel) (events : List HistogramEvent) : HistogramModel :=
  events.foldl step model

end HistogramModel

end Loglib
