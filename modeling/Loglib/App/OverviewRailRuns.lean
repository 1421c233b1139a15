import Loglib.Basic.Runs
import Loglib.App.LeafRuleCompile
import Loglib.App.OverviewRailBuckets

/-! Runs of the overview rail: after which events it shows the visible rows. -/

namespace Loglib

/-- The visible rows look as they did: as many, with the same levels and colours. -/
def RailView.ShowsAlike (before after : RailView) (anchors : AnchorManager) : Prop :=
  after.rowCount = before.rowCount ∧ after.levelAt = before.levelAt ∧
    after.slotAt anchors = before.slotAt anchors

/-- The matches that were pushed last, after an event. -/
def RailEvent.pushed (before : List Int) : RailEvent → List Int
  | .setMatchProxyRows proxyRows => proxyRows
  | _ => before

/-- The matches that were pushed last. -/
def lastPushed (events : List RailEvent) : List Int := events.foldl RailEvent.pushed []

namespace OverviewRailModel

/-- The rail shows the visible rows unless it is hidden or a rebuild is pending. -/
structure Settled (model : OverviewRailModel)
    (pushed : List Int) : Prop extends StoresMatches model pushed where
  agrees : model.rebuildPending = false → model.buckets ≠ [] → model.AgreesWithRows pushed
  height : model.buckets.length < 2 ^ 32

/-- A view that replaces the one of a rail without a rebuild shows the same rows. -/
def Unnoticed (model : OverviewRailModel) (view : RailView) : Prop :=
  model.rebuildPending = false → model.buckets ≠ [] → model.view.ShowsAlike view model.anchors

/-- What the rail needs of an event. Where the number of the first Level column is the cached one,
or a dictionary grew, the rows show the same levels and colours. A rebuild comes after the signal
that tells of another first Level column, and the rail is no higher than any screen. -/
def Follows (model : OverviewRailModel) : RailEvent → Prop
  | .enumColumnsChanged .grew view => model.Unnoticed view
  | .columnsChanged view | .enumColumnsChanged _ view =>
    view.source.table.configuration.firstLevelColumnIndex = model.levelColumnIndex →
      model.Unnoticed view
  | .setBucketCount nBuckets =>
    nBuckets < 2 ^ 32 ∧ (nBuckets ≠ model.buckets.length →
      model.levelColumnIndex = model.computeLevelColumnIndex)
  | .rebuildTimeout =>
    model.rebuildPending = true → model.levelColumnIndex = model.computeLevelColumnIndex
  | .rowsChanged _ | .modelReset _ | .changeAnchors _ | .setMatchProxyRows _ => True

/-- Every event of the run meets its condition on the state before it. -/
abbrev FollowedRun (model : OverviewRailModel) (events : List RailEvent) : Prop :=
  Loglib.FollowedRun step Follows model events

variable {model : OverviewRailModel} {pushed : List Int}

section Steps

/-- A rail that waits for a rebuild, or is hidden, shows what it may. -/
theorem Settled.scheduled (settled : model.Settled pushed) {view : RailView}
    {anchors : AnchorManager} {column : Option Nat} :
    (scheduleRebuild { model with view, anchors, levelColumnIndex := column }).Settled pushed := by
  unfold scheduleRebuild
  split
  · rename_i hidden
    -- A hidden rail has nothing to show.
    exact ⟨⟨settled.once, settled.same, settled.rowsOwn⟩, fun _ some_ => absurd hidden some_,
      settled.height⟩
  · -- The timer runs, so a rebuild is pending.
    exact ⟨⟨settled.once, settled.same, settled.rowsOwn⟩, fun idle => absurd idle Bool.noConfusion,
      settled.height⟩

/-- Rows that look alike leave the rail as it is. -/
theorem Settled.of_unnoticed (settled : model.Settled pushed) {view : RailView}
    (unnoticed : model.Unnoticed view) :
    ({ model with view } : OverviewRailModel).Settled pushed := by
  refine ⟨⟨settled.once, settled.same, settled.rowsOwn⟩, fun idle some_ => ?_, settled.height⟩
  have agrees := settled.agrees idle some_
  obtain ⟨count, levels, slots⟩ := unnoticed idle some_
  have counts : view.rowsInBucket = model.view.rowsInBucket := by
    funext bucketCount bucket rows holds
    rw [RailView.rowsInBucket, RailView.rowsInBucket, count]
  -- As many rows with the same levels and colours fill the buckets alike.
  refine ⟨⟨agrees.rowCount.trans count.symm, ?_, ?_, agrees.bits⟩, ?_, ?_⟩
  · intro bucket held present level
    show _ = view.rowsInBucket model.buckets.length bucket view.rowCount fun row =>
      view.levelAt row = some level
    rw [counts, count, levels]
    exact agrees.levels bucket held present level
  · intro bucket held present slot
    show _ ↔ ∃ row < view.rowCount, evenBucket view.rowCount _ row = bucket ∧
      view.slotAt model.anchors row = some slot
    rw [count, slots]
    exact agrees.slots bucket held present slot
  · intro bucket held present
    show _ = view.rowsInBucket model.buckets.length bucket view.rowCount fun row =>
      (row : Int) ∈ pushed
    rw [counts, count]
    exact agrees.matches_ bucket held present
  · intro bucket some_
    have firstRow := agrees.firstRow bucket
    rw [← count] at firstRow
    exact firstRow some_

/-- A rebuild under the first Level column settles the rail. -/
theorem StoresMatches.rebuilt (stores : model.StoresMatches pushed)
    (height : model.buckets.length < 2 ^ 32)
    (current : model.levelColumnIndex = model.computeLevelColumnIndex) :
    model.rebuildInternal.Settled pushed := by
  by_cases hidden : model.buckets = []
  · -- A hidden rail has no buckets to fill.
    have cleared : model.rebuildInternal = model.cleared :=
      if_pos (.inl (List.map_eq_nil_iff.mpr hidden))
    rw [cleared]
    exact ⟨⟨stores.once, stores.same, stores.rowsOwn⟩, fun _ some_ =>
      absurd (List.map_eq_nil_iff.mpr hidden) some_,
      (List.length_map _).trans_lt height⟩
  · obtain ⟨agrees, reads⟩ := rebuildInternal_agrees hidden height current stores
    -- A rebuild reads the stored matches and leaves them.
    refine ⟨⟨?_, fun row => ?_, ?_⟩, fun _ _ => agrees, reads.height.trans_lt height⟩
    · rw [reads.matchProxyRows]
      exact stores.once
    · rw [reads.matchProxyRows]
      exact stores.same row
    · rw [reads.matchBucketCounts]
      exact stores.rowsOwn

/-- `SetMatchProxyRows` stores each match once, and counts them under the rows as they are. -/
theorem setMatchProxyRows_settled (settled : model.Settled pushed) (proxyRows : List Int) :
    (model.setMatchProxyRows proxyRows).Settled proxyRows := by
  generalize stored_ : ({ model with
    matchProxyRows := (proxyRows.mergeSort fun first second => first ≤ second).dedup
    matchBucketCounts := []
    matchBucketTotal := 0
    proxyRowCount := model.view.sourceRows.length } : OverviewRailModel) = stored
  have stores : stored.StoresMatches proxyRows := by
    rw [← stored_]
    refine ⟨List.nodup_dedup _, fun row => ?_, rfl⟩
    rw [List.mem_dedup, List.mem_mergeSort]
  -- A rebuild that is pending stays so, and the buckets are the old ones.
  have fields : stored.rebuildPending = model.rebuildPending ∧ stored.buckets = model.buckets :=
    stored_ ▸ ⟨rfl, rfl⟩
  have reads := refreshMatchTicks_reads stored
  show (OverviewRailModel.refreshMatchTicks _).Settled proxyRows
  rw [stored_]
  refine ⟨⟨?_, fun row => ?_, ?_⟩, fun idle some_ => ?_, ?_⟩
  · rw [reads.matchProxyRows]
    exact stores.once
  · rw [reads.matchProxyRows]
    exact stores.same row
  · rw [reads.matchBucketCounts]
    exact stores.rowsOwn
  · -- The rows are counted already, under the number of rows that is stored again.
    have idle : model.rebuildPending = false := by rw [← fields.1, ← reads.rebuildPending, idle]
    have shown : model.buckets ≠ [] := by
      rw [← fields.2, ← List.length_pos_iff, ← reads.height, List.length_pos_iff]
      exact some_
    have before := settled.agrees idle shown
    have counts : stored.CountsRows := by
      rw [← stored_]
      exact ⟨rfl, before.levels, before.slots, before.bits⟩
    exact counts.refreshed (fields.2 ▸ shown) (fields.2 ▸ settled.height) stores
  · rw [reads.height, fields.2]
    exact settled.height

/-- An event that the rail follows leaves it settled. -/
theorem step_settled (settled : model.Settled pushed) {event : RailEvent}
    (follows : model.Follows event) :
    (model.step event).Settled (event.pushed pushed) := by
  -- A column signal is heard only where the number of the first Level column changes.
  have columns {view : RailView} (follows : view.source.table.configuration.firstLevelColumnIndex =
    model.levelColumnIndex →
      model.Unnoticed view) : (onColumnsChanged { model with view }).Settled pushed := by
    unfold onColumnsChanged
    split
    · rename_i same
      exact settled.of_unnoticed (follows same)
    · exact settled.scheduled
  cases event with
  | rowsChanged view => exact settled.scheduled
  | modelReset view => exact settled.scheduled
  | columnsChanged view => exact columns follows
  | enumColumnsChanged reason view =>
    cases reason with
    | grew => exact settled.of_unnoticed follows
    | promoted => exact columns follows
    | demoted => exact columns follows
  | changeAnchors op =>
    have announces := model.anchors.apply_announces op
    unfold step
    dsimp only
    generalize model.anchors.apply op = changed at announces ⊢
    -- A change that is not announced is none.
    cases announces with
    | nothing => exact settled
    | one anchors key others => exact settled.scheduled
    | all anchors => exact settled.scheduled
  | setBucketCount nBuckets =>
    unfold step setBucketCount
    dsimp only
    split
    · exact settled
    · rename_i resized
      have stores : ({ model with
        buckets := List.replicate nBuckets RailBucket.empty
        rebuildPending := false } :
          OverviewRailModel).StoresMatches pushed := ⟨settled.once, settled.same, settled.rowsOwn⟩
      exact stores.rebuilt (List.length_replicate.trans_lt follows.1) (follows.2 (Ne.symm resized))
  | setMatchProxyRows proxyRows => exact setMatchProxyRows_settled settled proxyRows
  | rebuildTimeout =>
    unfold step onRebuildTimeout
    dsimp only
    split
    · rename_i due
      have stores : ({ model with rebuildPending := false } : OverviewRailModel).StoresMatches
          pushed :=
        ⟨settled.once, settled.same, settled.rowsOwn⟩
      exact stores.rebuilt settled.height (follows due)
    · exact settled

/-- A rail that is constructed is hidden, and settled. -/
theorem ofView_settled (view : RailView) (anchors : AnchorManager) :
    (ofView view anchors).Settled [] :=
  ⟨⟨List.nodup_nil, fun _ => Iff.rfl, rfl⟩, fun _ some_ => absurd rfl some_, Nat.two_pow_pos 32⟩

end Steps

/-- In a run of events that the rail follows, whenever no rebuild is pending and the rail is not
hidden, it shows the visible rows and the matches that were pushed last. -/
theorem run_showsRows {view : RailView} {anchors : AnchorManager} {events : List RailEvent}
    (followed : (ofView view anchors).FollowedRun events) (steps : Nat)
    (idle : ((ofView view anchors).run (events.take steps)).rebuildPending = false)
    (some_ : ((ofView view anchors).run (events.take steps)).buckets ≠ []) :
    ((ofView view anchors).run (events.take steps)).AgreesWithRows
      (lastPushed (events.take steps)) := by
  -- The rail starts settled, and every event that it follows leaves it so.
  have settled : ((ofView view anchors).run (events.take steps)).Settled
      (lastPushed (events.take steps)) :=
    @Loglib.FollowedRun.invariant_with _ _ _ step Follows _ _ Settled RailEvent.pushed
      (fun _ _ _ settled follows => step_settled settled follows) (followed.take steps) []
        (ofView_settled view anchors)
  exact settled.agrees idle some_

section Exchanged

/-- A second level column. -/
def severityColumn : Column :=
  { LogTable.pinnedColumn (bytes "severity") [bytes "severity"] with type := .level }

/-- A table with two level columns, and one row that is `info` in the first and `error` in
the second. -/
def twoLevelsTable : LogTable :=
  (LogTable.run (fun _ _ => none) (.initial ⟨[levelColumn, severityColumn], ⟨-1, false⟩⟩)
    [.beginStreaming (some (.file (.ofData (bytes "info error\n")))),
      .appendBatch ⟨[(LogLine.ofField 0 0 0 (.mmapSlice 0 4)).setCompact 1 (.mmapSlice 5 5)], [11],
      [], []⟩]).getD
    (.initial ⟨[], ⟨-1, false⟩⟩)

/-- The view of the first row of a table. -/
def firstRowView (table : LogTable) : RailView :=
  ⟨⟨table, fun _ => []⟩, [some 0], Nat.one_lt_two_pow (Nat.succ_ne_zero 30)⟩

/-- Rows that are inserted, and a match among them, are shown once the rebuild has come. -/
theorem insertedRow_shown :
    ((ofView (firstRowView twoLevelsTable) .empty).run ([.setBucketCount 3, .setMatchProxyRows [0],
      .rowsChanged (firstRowView twoLevelsTable), .rebuildTimeout].take 4)).AgreesWithRows [0] := by
  have followed : (ofView (firstRowView twoLevelsTable) .empty).FollowedRun [.setBucketCount 3,
    .setMatchProxyRows [0],
      .rowsChanged (firstRowView twoLevelsTable), .rebuildTimeout] :=
    ⟨⟨by decide, fun _ => rfl⟩, trivial, trivial, fun _ => by decide +kernel, trivial⟩
  exact run_showsRows followed 4 (by decide +kernel) (by decide +kernel)

/-- Two level columns that change places leave the levels of the column that was first. -/
theorem exchangedColumns_stale :
    ¬∀ (table : LogTable) (srcIndex destIndex nBuckets : Nat),
      let reached := (ofView (firstRowView table) .empty).run
        [.setBucketCount nBuckets,
          .columnsChanged (firstRowView (table.moveColumn srcIndex destIndex))]
      reached.rebuildPending = false → reached.buckets ≠ [] → reached.AgreesWithRows [] := by
  intro claim
  have agrees := claim twoLevelsTable 1 0 1 (by decide +kernel) (by decide +kernel)
  have seen : ((ofView (firstRowView twoLevelsTable) .empty).run [.setBucketCount 1,
      .columnsChanged (firstRowView (twoLevelsTable.moveColumn 1 0))]).buckets[0]?.map
        (fun held => (held.levels.counts .info).toNat) = some 1 := by decide +kernel
  obtain ⟨held, present, counted⟩ := Option.map_eq_some_iff.mp seen
  have shown := agrees.levels 0 held present .info
  -- The row is an error now, but it is counted as the information it was.
  rw [counted] at shown
  revert shown
  decide +kernel

end Exchanged

end OverviewRailModel

end Loglib
