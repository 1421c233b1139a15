import Loglib.App.HistogramModel
import Loglib.Basic.EvenBuckets

/-! The overview rail: buckets of the visible rows, with their levels, the find matches and the
anchor colours in each. -/

namespace Loglib

/-- What the rail reads of its models: the log model, and the source row of each visible row. A
visible row has none when the chain of proxies loses it. The number of rows is an `int`. -/
structure RailView where
  source : HistogramSource
  sourceRows : List (Option Nat)
  rowCount_lt : sourceRows.length < 2 ^ 31

/-- `Bucket`. -/
structure RailBucket where
  levels : LevelBucket
  matchCount : UInt32
  anchorSlots : AnchorSlotMask

namespace RailBucket

/-- A bucket without rows. -/
def empty : RailBucket := ⟨.empty, 0, ∅⟩

/-- One more row of a level. -/
def countLevel (level : LogLevel) (bucket : RailBucket) : RailBucket :=
  { bucket with levels := bucket.levels.count level }

/-- One more match. -/
def countMatch (bucket : RailBucket) : RailBucket :=
  { bucket with matchCount := bucket.matchCount + 1 }

/-- A colour of an anchor. -/
def setSlot (slot : AnchorColor) (bucket : RailBucket) : RailBucket :=
  { bucket with anchorSlots := insert slot bucket.anchorSlots }

end RailBucket

/-- The members of `OverviewRailModel` but for the cached chain of proxies, and what it reads. A
pending rebuild is a running timer. -/
structure OverviewRailModel where
  view : RailView
  anchors : AnchorManager
  buckets : List RailBucket
  matchProxyRows : List Int
  matchBucketCounts : List UInt32
  matchBucketTotal : UInt32
  proxyRowCount : Nat
  levelColumnIndex : Option Nat
  anchorBucketBitsSet : Nat
  bucketedMatchCount : UInt32
  rebuildPending : Bool

namespace OverviewRailModel

/-- The constructor: the rail is hidden at first. -/
def ofView (view : RailView) (anchors : AnchorManager) : OverviewRailModel :=
  { view, anchors, buckets := [], matchProxyRows := [], matchBucketCounts := [], matchBucketTotal := 0,
    proxyRowCount := 0,
    levelColumnIndex := view.source.table.configuration.firstLevelColumnIndex,
    anchorBucketBitsSet := 0,
    bucketedMatchCount := 0, rebuildPending := false }

variable (model : OverviewRailModel)

/-- The bucket of a visible row. The product is a `size_t`. -/
def bucketOfRow (row : Nat) : Nat :=
  min (row * model.buckets.length % 2 ^ 64 / model.proxyRowCount) (model.buckets.length - 1)

/-- `ProxyToSourceRow`. -/
def proxyToSourceRow (row : Nat) : Option Nat := model.view.sourceRows[row]?.join

/-- `LevelForSourceRow`. -/
def levelForSourceRow (sourceRow : Nat) : LogLevel :=
  match model.levelColumnIndex with
  | none => .unknown
  | some column => (model.view.source.table.getLevelForRow sourceRow column).getD .unknown

/-- `FirstProxyRowInBucket`, as long as the sum is a `long long`. -/
def firstProxyRowInBucket (bucket : Nat) : Option Nat :=
  if model.proxyRowCount = 0 ∨ model.buckets.length ≤ bucket then none
  else some (min (evenFirstRow model.proxyRowCount model.buckets.length bucket)
    (model.proxyRowCount - 1))

section Rebuilding

/-- Set the bit of a colour in a bucket, and count it if it is new. -/
def setAnchorBit (bucket : Nat) (slot : AnchorColor) : OverviewRailModel :=
  if model.buckets[bucket]?.any fun held => slot ∈ held.anchorSlots then model
  else
    { model with
      buckets := model.buckets.modify bucket (RailBucket.setSlot slot)
      anchorBucketBitsSet := model.anchorBucketBitsSet + 1 }

/-- One visible row of the walk: count its level, and set the bit of its anchor. -/
def walkRow (trackAnchors : Bool) (model : OverviewRailModel) (row : Nat) : OverviewRailModel :=
  match model.proxyToSourceRow row with
  | none => model
  | some sourceRow =>
    let counted :=
      { model with
        -- Every visible row is counted, and anchored ones set the bit of their colour.
        buckets := model.buckets.modify (model.bucketOfRow row)
          (RailBucket.countLevel (model.levelForSourceRow sourceRow)) }
    if trackAnchors then
      match model.view.source.anchorSlotForRow model.anchors sourceRow with
      | none => counted
      | some slot => counted.setAnchorBit (model.bucketOfRow row) slot
    else counted

/-- The matches of `FoldMatchTicksIntoBuckets` that are rows of the view. -/
def visibleMatches : List Nat :=
  (model.matchProxyRows.filter fun row => 0 ≤ row ∧ row < (model.proxyRowCount : Int)).map Int.toNat

/-- `FoldMatchTicksIntoBuckets`. -/
def foldMatchTicksIntoBuckets : OverviewRailModel :=
  if model.buckets = [] ∨ model.proxyRowCount = 0 then model
  else
    model.visibleMatches.foldl
      (fun (model : OverviewRailModel) (row : Nat) =>
        { model with
          buckets := model.buckets.modify (model.bucketOfRow row) RailBucket.countMatch
          bucketedMatchCount := model.bucketedMatchCount + 1 })
      model

/-- `ApplyStoredMatchBucketCounts`. -/
def applyStoredMatchBucketCounts : OverviewRailModel :=
  if model.matchBucketCounts.length ≠ model.buckets.length ∨ model.buckets = [] then model
  else
    { model with
      bucketedMatchCount := model.matchBucketTotal
      buckets := List.zipWith (fun bucket count =>
        ({ bucket with matchCount := count } : RailBucket)) model.buckets
        model.matchBucketCounts }

/-- The buckets without rows, and the number of visible rows as it is now. -/
def cleared : OverviewRailModel :=
  { model with
    buckets := model.buckets.map fun _ => RailBucket.empty
    anchorBucketBitsSet := 0
    bucketedMatchCount := 0
    proxyRowCount := model.view.sourceRows.length }

/-- `RebuildInternal`. -/
def rebuildInternal : OverviewRailModel :=
  let cleared := model.cleared
  if cleared.buckets = [] ∨ cleared.proxyRowCount = 0 then cleared
  else
    let trackAnchors := !model.anchors.entries.isEmpty
    let walked := (List.range cleared.proxyRowCount).foldl (walkRow trackAnchors) cleared
    let folded := walked.foldMatchTicksIntoBuckets
    if folded.matchProxyRows = [] then folded.applyStoredMatchBucketCounts else folded

/-- `RefreshMatchTicks`. -/
def refreshMatchTicks : OverviewRailModel :=
  ({ model with
    bucketedMatchCount := 0
    buckets := model.buckets.map fun bucket => ({ bucket with matchCount := 0 } : RailBucket) } :
    OverviewRailModel).foldMatchTicksIntoBuckets

/-- `ScheduleRebuild`: a hidden rail is not rebuilt. -/
def scheduleRebuild : OverviewRailModel :=
  if model.buckets = [] then model else { model with rebuildPending := true }

/-- `OnRebuildTimeout`, when the timer runs. -/
def onRebuildTimeout : OverviewRailModel :=
  if model.rebuildPending then ({ model with rebuildPending := false } :
    OverviewRailModel).rebuildInternal else model

end Rebuilding

section Calls

/-- `SetBucketCount`. -/
def setBucketCount (nBuckets : Nat) : OverviewRailModel :=
  if model.buckets.length = nBuckets then model
  else
    ({ model with buckets := List.replicate nBuckets RailBucket.empty, rebuildPending := false } :
      OverviewRailModel).rebuildInternal

/-- `SetMatchProxyRows`. -/
def setMatchProxyRows (proxyRows : List Int) : OverviewRailModel :=
  ({ model with
    matchProxyRows := (proxyRows.mergeSort fun first second => first ≤ second).dedup
    matchBucketCounts := []
    matchBucketTotal := 0
    proxyRowCount := model.view.sourceRows.length } : OverviewRailModel).refreshMatchTicks

/-- `SetMatchBucketCounts`: counts for another number of buckets are dropped. -/
def setMatchBucketCounts (perBucketCounts : List UInt32) (totalMatches : UInt32) :
    OverviewRailModel :=
  if perBucketCounts.length ≠ model.buckets.length then model
  else
    ({ model with
      proxyRowCount := model.view.sourceRows.length
      matchProxyRows := []
      matchBucketCounts := perBucketCounts
      matchBucketTotal := totalMatches } : OverviewRailModel).applyStoredMatchBucketCounts

end Calls

section Signals

/-- The first Level column of the log model as it is now. -/
def computeLevelColumnIndex : Option Nat :=
  model.view.source.table.configuration.firstLevelColumnIndex

/-- `OnColumnsChanged` and `OnEnumColumnsChanged`, which do the same. -/
def onColumnsChanged : OverviewRailModel :=
  if model.computeLevelColumnIndex = model.levelColumnIndex then model
  else ({ model with levelColumnIndex := model.computeLevelColumnIndex } :
    OverviewRailModel).scheduleRebuild

/-- `OnModelReset`. -/
def onModelReset : OverviewRailModel :=
  ({ model with levelColumnIndex := model.computeLevelColumnIndex } :
    OverviewRailModel).scheduleRebuild

end Signals

end OverviewRailModel

/-- A signal of the models, with what the rail reads by then, a change of the anchors, a call or the
timer. `rowsChanged` is any of `rowsInserted`, `rowsRemoved` and `layoutChanged`, and
`columnsChanged` any of `columnsMoved`, `columnsInserted` and `columnsRemoved`. -/
inductive RailEvent where
  | rowsChanged (view : RailView)
  | modelReset (view : RailView)
  | columnsChanged (view : RailView)
  | enumColumnsChanged (reason : EnumColumnsChangeReason) (view : RailView)
  | changeAnchors (op : AnchorOp)
  | setBucketCount (nBuckets : Nat)
  | setMatchProxyRows (proxyRows : List Int)
  | rebuildTimeout

namespace OverviewRailModel

/-- One event. -/
def step (model : OverviewRailModel) : RailEvent → OverviewRailModel
  | .rowsChanged view => scheduleRebuild { model with view }
  | .modelReset view => onModelReset { model with view }
  | .columnsChanged view => onColumnsChanged { model with view }
  -- A dictionary that has only grown rebuilds nothing.
  | .enumColumnsChanged .grew view => { model with view }
  | .enumColumnsChanged _ view => onColumnsChanged { model with view }
  | .changeAnchors op =>
    let (anchors, signal) := model.anchors.apply op
    if signal.isSome then scheduleRebuild { model with anchors } else { model with anchors }
  | .setBucketCount nBuckets => model.setBucketCount nBuckets
  | .setMatchProxyRows proxyRows => model.setMatchProxyRows proxyRows
  | .rebuildTimeout => model.onRebuildTimeout

/-- A run of events. -/
def run (model : OverviewRailModel) (events : List RailEvent) : OverviewRailModel :=
  events.foldl step model

end OverviewRailModel

end Loglib
