import Loglib.App.LevelColumnCache
import Loglib.Table.ColumnLayout
import Loglib.Table.KeyIds
import Loglib.Table.TableFrames

/-! The columns of a streamed log against those of a log that is loaded at once. -/

namespace Loglib

/-- A column with at most another type, and a time column as before. -/
structure Column.Detected (before after : Column) : Prop where
  rest : after = { before with type := after.type }
  time : after.type = .time ↔ before.type = .time

/-- A column as it is. -/
theorem Column.Detected.refl (column : Column) : column.Detected column := ⟨rfl, Iff.rfl⟩

/-- One detection after another. -/
theorem Column.Detected.trans {first second third : Column} (one : first.Detected second)
    (two : second.Detected third) : first.Detected third := by
  refine ⟨?_, two.time.trans one.time⟩
  rw [two.rest, one.rest]

/-- A detected column shows the same keys. -/
theorem Column.Detected.keys {before after : Column} (detected : before.Detected after) :
    after.keys = before.keys := by
  rw [detected.rest]

namespace LogConfiguration

/-- The same columns in the same order, up to the types that were detected, and the same sort. -/
structure SameLayout (first second : LogConfiguration) : Prop where
  columns : List.Forall₂ Column.Detected first.columns second.columns
  sort : second.sort = first.sort

namespace SameLayout

/-- A configuration as it is. -/
@[refl] theorem refl (config : LogConfiguration) : SameLayout config config :=
  ⟨List.forall₂_same.mpr fun column _ => .refl column, rfl⟩

/-- Layouts compose. -/
theorem trans {first second third : LogConfiguration} (one : SameLayout first second)
    (two : SameLayout second third) : SameLayout first third :=
  ⟨forall₂_trans (fun _ _ _ one two => one.trans two) one.columns two.columns,
    two.sort.trans one.sort⟩

variable {first second : LogConfiguration}

/-- As many columns. -/
theorem length (same : SameLayout first second) : second.columns.length = first.columns.length :=
  same.columns.length_eq.symm

/-- The column at an index is the detected one. -/
theorem time_iff (same : SameLayout first second) (columnIndex : Nat) :
    second.columns[columnIndex]?.map (·.type) = some .time ↔
      first.columns[columnIndex]?.map (·.type) = some .time := by
  have related := same.columns
  generalize first.columns = before, second.columns = after at related
  -- Column by column, from the front.
  induction related generalizing columnIndex with
  | nil => rfl
  | cons head _ ih =>
    cases columnIndex with
    | zero => simpa using head.time
    | succ columnIndex => simpa using ih columnIndex

/-- The same keys are shown. -/
theorem isKeyInAnyColumn (same : SameLayout first second) (key : Bytes) :
    second.isKeyInAnyColumn key = first.isKeyInAnyColumn key := by
  have related := same.columns
  unfold LogConfiguration.isKeyInAnyColumn
  generalize first.columns = before, second.columns = after at related
  induction related with
  | nil => rfl
  | cons head _ ih => rw [List.any_cons, List.any_cons, head.keys, ih]

/-- Both get the same new columns. -/
theorem appendKeys (same : SameLayout first second) (newKeys : List Bytes) :
    SameLayout (first.appendKeys newKeys) (second.appendKeys newKeys) := by
  induction newKeys generalizing first second with
  | nil => exact same
  -- A key that is in a column of one layout is in the same column of the other.
  | cons key rest ih =>
    refine ih ?_
    unfold appendKey
    rw [same.isKeyInAnyColumn key]
    split
    · exact same
    · exact ⟨List.rel_append same.columns (.cons (.refl _) .nil), same.sort⟩

/-- Both move the same column. -/
theorem bubbleTimeColumn (same : SameLayout first second) (srcIndex : Nat) :
    SameLayout (first.bubbleTimeColumn srcIndex) (second.bubbleTimeColumn srcIndex) := by
  unfold LogConfiguration.bubbleTimeColumn moveColumn
  rw [same.length]
  split
  · exact same
  · split
    · exact same
    · -- The same item moves in both, and so each part of the list keeps its partner.
      refine ⟨?_, by rw [same.sort]⟩
      unfold moveItem
      split
      · exact List.rel_append (List.rel_append (List.rel_append (List.forall₂_take _ same.columns)
          (List.forall₂_drop _ (List.forall₂_take _ same.columns)))
          (List.forall₂_drop _ (List.forall₂_take _ same.columns)))
            (List.forall₂_drop _ same.columns)
      · exact List.rel_append (List.rel_append (List.rel_append (List.forall₂_take _ same.columns)
          (List.forall₂_drop _ (List.forall₂_take _ same.columns)))
          (List.forall₂_drop _ (List.forall₂_take _ same.columns)))
            (List.forall₂_drop _ same.columns)

/-- Both move the same columns. -/
theorem bubbled (same : SameLayout first second) (indices : List Nat) :
    SameLayout (indices.foldl LogConfiguration.bubbleTimeColumn first)
      (indices.foldl LogConfiguration.bubbleTimeColumn second) := by
  induction indices generalizing first second with
  | nil => exact same
  | cons srcIndex rest ih => exact ih (same.bubbleTimeColumn srcIndex)

/-- The new time columns are the same. -/
theorem newTimeColumns (same : SameLayout first second) (oldColumnCount newColumnCount : Nat) :
    second.newTimeColumns oldColumnCount newColumnCount = first.newTimeColumns oldColumnCount
      newColumnCount := by
  unfold LogConfiguration.newTimeColumns
  refine List.filter_congr fun columnIndex _ => ?_
  simp only [same.time_iff columnIndex]

end SameLayout

end LogConfiguration

namespace LogTable

open LogConfiguration (SameLayout)

/-- A column that is not a time column takes another type. -/
theorem sameLayout_setColumnType {table : LogTable} {columnIndex : Nat} {type : ColumnType}
    (plain : ∀ column, table.columns[columnIndex]? = some column → column.type ≠ .time)
    (other : type ≠ .time) :
    SameLayout table.configuration (table.setColumnType columnIndex type).configuration :=
  ⟨forall₂_modify Column.Detected.refl fun column found =>
    ⟨rfl, iff_of_false other (plain column found)⟩, rfl⟩

/-- A piece of the enumeration work keeps the layout. -/
theorem sameLayout_of_step {old new : LogTable} (step : EnumStep old new) :
    SameLayout old.configuration new.configuration := by
  have same {next : LogTable} (config : next.configuration = old.configuration) :
      SameLayout old.configuration next.configuration := config ▸ .refl _
  -- Most steps leave the columns alone. The ones that set a type keep it out of the layout.
  cases step with
  | retype columnIndex type plain other => exact sameLayout_setColumnType plain other
  | track trackerKey tracker => exact .refl _
  | wire names =>
    cases names with
    | nil => exact .refl _
    | cons name rest =>
      refine same ?_
      unfold wireColumnKeys
      exact foldl_invariant (fun wired : LogTable => wired.configuration = old.configuration)
        (fun _ _ _ kept => kept) rfl
  | encode aliasKeys rowBegin healthKey => cases aliasKeys <;> exact .refl _
  | rank columnIndex =>
    refine same ?_
    unfold refreshLevelRankCache
    repeat' split
    all_goals rfl
  -- A level column has been an enumeration, and neither is a time column.
  | level columnIndex =>
    obtain kept | ⟨column, canonical, inside, enumeration, -, -, -, became⟩ :=
      old.maybePromoteToLevel_cases columnIndex
    · rw [kept]
    · have typed : SameLayout old.configuration
          (old.setColumnType columnIndex .level).configuration := by
        refine sameLayout_setColumnType (fun other found => ?_) ColumnType.noConfusion
        rw [← Option.some.inj (inside.symm.trans found), enumeration]
        exact ColumnType.noConfusion
      have ranked : (old.becomeLevel columnIndex canonical).configuration =
          (old.setColumnType columnIndex .level).configuration := by
        unfold becomeLevel refreshLevelRankCache
        simp only
        repeat' split
        all_goals rfl
      rw [became, ranked]
      exact typed
  -- A demoted column has been an enumeration or a level column and becomes a string one.
  | demote columnIndex recordForBatch done =>
    obtain ⟨kept, -⟩ | ⟨column, inside, enumLike, retyped⟩ := demoteColumnFromEnum_cases done
    · rw [kept]
    · have typed : SameLayout old.configuration
          (old.setColumnType columnIndex .string).configuration := by
        refine sameLayout_setColumnType (fun other found time => ?_) ColumnType.noConfusion
        rw [Option.some.inj (inside.symm.trans found), time] at enumLike
        cases enumLike
      obtain ⟨-, became⟩ | ⟨canonical, aliases, sources, lines, -, -, became⟩ := retyped
      · rw [became]
        exact typed
      · rw [became]
        exact typed

/-- The rows of a batch come with its columns, and nothing else happens to the columns. -/
theorem appendBatchRows_columns (parse : TimestampParser) (table : LogTable)
    (batch : StreamedBatch) :
    (table.appendBatchRows parse batch).table.configuration =
      table.configuration.appendKeys batch.newKeys ∧
      (batch.newKeys ≠ [] → (table.appendBatchRows parse batch).table.columnKeyIds.length =
        (table.configuration.appendKeys batch.newKeys).columns.length) := by
  unfold appendBatchRows
  refine foldl_invariant (fun walk : BackfillWalk =>
    walk.table.configuration = table.configuration.appendKeys batch.newKeys ∧
      (batch.newKeys ≠ [] → walk.table.columnKeyIds.length =
        (table.configuration.appendKeys batch.newKeys).columns.length)) ?_ ?_
  · -- Parsing a time column changes neither the layout nor the number of cached ids.
    rintro walk ⟨column, columnIndex⟩ - ⟨configuration, cached⟩
    obtain ⟨-, ids, kept⟩ := backfillColumn_frame parse table.lines.length walk columnIndex column
    exact ⟨kept.trans configuration, fun some => (congrArg List.length ids).trans (cached some)⟩
  · -- New keys are laid out before the ids are cached again.
    unfold refreshColumnKeyIdsForKeys
    split
    · rename_i none
      exact ⟨rfl, fun some => absurd (List.isEmpty_iff.mp none) some⟩
    · exact ⟨rfl, fun _ => List.length_mapIdx⟩

/-- A batch appends the columns of its keys, up to the types that are detected. -/
theorem appendBatch_layout {parse : TimestampParser} {table next : LogTable} {batch : StreamedBatch}
    (done : table.appendBatch parse batch = some next) :
    SameLayout (table.configuration.appendKeys batch.newKeys) next.configuration ∧
      (batch.newKeys ≠ [] → next.columnKeyIds.length = next.columns.length) := by
  -- The new keys widen the columns before the pass, and the pass only changes types.
  obtain ⟨walk, passed, same⟩ := Option.map_eq_some_iff.mp done
  obtain ⟨configuration, cached⟩ := table.appendBatchRows_columns parse batch
  have steps := steps_runEnumPass passed
  have layout : SameLayout (table.configuration.appendKeys batch.newKeys)
      walk.table.configuration :=
    configuration ▸ steps.keeps (fun _ => .refl _) .trans sameLayout_of_step
  have frame : EnumFrame (table.appendBatchRows parse batch).table walk.table :=
    steps.keeps .refl .trans enumFrame_of_step
  subst same
  -- With new keys the cached ids are as many as the widened columns.
  refine ⟨layout, fun some => ?_⟩
  calc walk.table.columnKeyIds.length
    _ = (table.appendBatchRows parse batch).table.columnKeyIds.length :=
      congrArg List.length frame.columnKeyIds
    _ = (table.configuration.appendKeys batch.newKeys).columns.length := cached some
    _ = walk.table.columns.length := layout.length.symm

/-- A batch without rows has nothing to detect, and appends the columns as they are. -/
theorem appendBatch_of_rowless (parse : TimestampParser) (table : LogTable) {batch : StreamedBatch}
    (rowless : batch.lines = []) : ∃ next, table.appendBatch parse batch = some next ∧
      next.configuration = table.configuration.appendKeys batch.newKeys ∧
        next.pendingLevelBubbleKeys = [] := by
  -- Without rows nothing is filled back, so nothing is counted and nothing waits to move.
  have kept : (table.appendBatchRows parse batch).table.lines.length = table.lines.length ∧
      (table.appendBatchRows parse batch).table.pendingLevelBubbleKeys = [] := by
    unfold appendBatchRows
    refine foldl_invariant (fun walk : BackfillWalk =>
      walk.table.lines.length = table.lines.length ∧
      walk.table.pendingLevelBubbleKeys = []) ?_ ?_
    · rintro walk ⟨column, columnIndex⟩ - ⟨lines, pending⟩
      refine ⟨(sameCounts_backfillColumn parse table.lines.length walk columnIndex
        column).rows.trans lines, ?_⟩
      simp only [backfillColumn]
      repeat' split
      all_goals exact pending
    · unfold refreshColumnKeyIdsForKeys
      split <;> exact ⟨by simp [appendLines, rowless], rfl⟩
  -- The pass has no new rows to go through.
  have passed : runEnumPass table.lines.length (table.appendBatchRows parse batch) =
      some (table.appendBatchRows parse batch) := if_pos kept.1.le
  have configuration := (table.appendBatchRows_columns parse batch).1
  exact ⟨_, congrArg (Option.map _) passed, configuration, kept.2⟩

/-- With an id list for each column, the table moves a column where the configuration does. -/
theorem moveColumn_configuration {table : LogTable}
    (cached : table.columnKeyIds.length = table.columns.length)
    (srcIndex destIndex : Nat) :
    (table.moveColumn srcIndex destIndex).configuration = table.configuration.moveColumn srcIndex
      destIndex := by
  unfold moveColumn LogConfiguration.moveColumn
  rw [cached]
  split <;> rfl

/-- A move keeps an id list for each column. -/
theorem moveColumn_cached {table : LogTable}
    (cached : table.columnKeyIds.length = table.columns.length)
    (srcIndex : Nat) :
    (table.moveColumn srcIndex 0).columnKeyIds.length =
      (table.moveColumn srcIndex 0).columns.length := by
  unfold moveColumn
  split
  · exact cached
  · rename_i inside
    rw [cached] at inside
    -- The columns and the ids are moved by the same permutation.
    have columns : (table.configuration.moveColumn srcIndex 0).columns =
        LogConfiguration.moveItem table.columns srcIndex 0 := by
      unfold LogConfiguration.moveColumn
      rw [if_neg inside]
    have ids := (@LogConfiguration.moveItem_front_perm srcIndex _ table.columnKeyIds).length_eq
    have items := (@LogConfiguration.moveItem_front_perm srcIndex _ table.columns).length_eq
    simp only [LogTable.columns, columns]
    exact ids.trans (cached.trans items.symm)

end LogTable

namespace LogModel

open LogConfiguration (SameLayout)

variable {model : LogModel} {parse : TimestampParser} {asks : SignalReads} {batch : StreamedBatch}

/-- `AppendBatch` up to the moves of the new time columns, before the level columns move. -/
def timedBatch (parse : TimestampParser) (asks : SignalReads) (model : LogModel)
    (batch : StreamedBatch) :
    Option LogModel :=
  let batch := model.collapseBatch batch
  let newColumnCount := (model.table.previewAppend batch).newColumnCount
  ((model.evictFor batch).takeBatch parse batch).map fun taken =>
    let signalled := taken.signal (asks 0)
    bubbleTimeColumns asks 1 signalled
      (signalled.newTimestampColumnIndices model.table.columnCount newColumnCount)

/-- The level columns move after the time columns. -/
theorem appendBatch_eq_timedBatch (model : LogModel) (batch : StreamedBatch) :
    model.appendBatch parse asks batch = (model.timedBatch parse asks batch).map
      (drainLevelBubbles asks ((model.table.previewAppend
        (model.collapseBatch batch)).newColumnCount + 1)) := by
  unfold appendBatch timedBatch
  rw [Option.map_map]
  rfl

/-- Dropping the head of a batch keeps its keys. -/
theorem collapseBatch_newKeys (model : LogModel) (batch : StreamedBatch) :
    (model.collapseBatch batch).newKeys = batch.newKeys := by
  unfold collapseBatch
  split <;> rfl

/-- Rows that make room take no column with them. -/
theorem evictFor_configuration (model : LogModel) (batch : StreamedBatch) :
    (model.evictFor batch).table.configuration = model.table.configuration := by
  unfold evictFor LogTable.evictPrefixRows
  split
  · rfl
  · split <;> rfl

/-- The model takes what the table takes. -/
theorem takeBatch_table {taken : LogModel} (done : model.takeBatch parse batch = some taken) :
    (model.table.internKeys batch.newKeys).appendBatch parse batch = some taken.table := by
  obtain ⟨table, appended, rfl⟩ := Option.map_eq_some_iff.mp done
  -- The check of the times leaves the table as it is.
  have kept : (updateTimestampMonotonicity { model with table } model.table.rowCount).table =
      table := by
    unfold updateTimestampMonotonicity
    split
    · rfl
    · split <;> rfl
  exact appended.trans (congrArg some kept.symm)

/-- The new time columns move in the model as they do in the configuration. -/
theorem bubbleTimeColumns_configuration (asks : SignalReads) (signals : Nat) (model : LogModel)
    (indices : List Nat)
    (cached : indices ≠ [] → model.table.columnKeyIds.length = model.table.columns.length) :
    (bubbleTimeColumns asks signals model indices).table.configuration =
      indices.foldl LogConfiguration.bubbleTimeColumn model.table.configuration := by
  -- Over the time columns; the model changes with each of them.
  induction indices generalizing signals model with
  | nil => rfl
  | cons srcIndex rest ih =>
    have sizes := cached (List.cons_ne_nil srcIndex rest)
    unfold bubbleTimeColumns
    rw [List.foldl_cons, LogConfiguration.bubbleTimeColumn]
    split
    · exact ih signals model fun _ => sizes
    · rw [ih, signal_table, LogTable.moveColumn_configuration sizes]
      intro _
      rw [signal_table]
      exact LogTable.moveColumn_cached sizes srcIndex

/-- The table after the moves of the time columns, from what the table was when it had the batch. -/
theorem timedBatch_configuration {timed : LogModel}
    (done : model.timedBatch parse asks batch = some timed) :
    ∃ taken, (model.evictFor (model.collapseBatch batch)).takeBatch parse
      (model.collapseBatch batch) = some taken ∧
      timed.table.configuration =
        (taken.table.configuration.newTimeColumns model.table.columns.length
          taken.table.columns.length).foldl
          LogConfiguration.bubbleTimeColumn taken.table.configuration := by
  obtain ⟨taken, took, rfl⟩ := Option.map_eq_some_iff.mp done
  refine ⟨taken, took, ?_⟩
  obtain ⟨layout, cached⟩ := LogTable.appendBatch_layout (takeBatch_table took)
  have grown : SameLayout (model.table.configuration.appendKeys batch.newKeys)
      taken.table.configuration := by
    rw [← evictFor_configuration model (model.collapseBatch batch),
      ← model.collapseBatch_newKeys batch]
    exact layout
  -- The view has announced as many columns as the table has now.
  have announced : (model.table.previewAppend (model.collapseBatch batch)).newColumnCount =
      taken.table.columns.length := by
    have counted := congrArg List.length
      (model.table.configuration.appendKeys_eq_counted batch.newKeys)
    rw [List.length_append, List.length_map] at counted
    rw [LogTable.columns, grown.length, counted, ← model.collapseBatch_newKeys batch]
    rfl
  simp only [announced]
  rw [bubbleTimeColumns_configuration, signal_table]
  · unfold newTimestampColumnIndices LogConfiguration.newTimeColumns
    rw [signal_table]
    rfl
  · intro someMove
    rw [signal_table]
    refine cached fun keyless => someMove ?_
    -- Without new keys there is no new column.
    have size : taken.table.columns.length = model.table.columns.length := by
      rw [LogTable.columns, grown.length, ← model.collapseBatch_newKeys batch, keyless]
      rfl
    unfold newTimestampColumnIndices
    rw [size, LogTable.columnCount, Nat.sub_self]
    rfl

/-- What `AppendBatch` has made of the columns once the time columns have moved is what `Update`
makes of them. -/
theorem timedBatch_layout {config : LogConfiguration} {timed : LogModel}
    (same : SameLayout config model.table.configuration)
    (done : model.timedBatch parse asks batch = some timed) :
    SameLayout (config.update batch.newKeys) timed.table.configuration := by
  -- The table takes the batch first, then the new time columns move.
  obtain ⟨taken, took, configuration⟩ := timedBatch_configuration done
  have layout := (LogTable.appendBatch_layout (takeBatch_table took)).1
  have kept : ((model.evictFor (model.collapseBatch batch)).table.internKeys
      (model.collapseBatch batch).newKeys).configuration = model.table.configuration :=
    evictFor_configuration model (model.collapseBatch batch)
  rw [kept, collapseBatch_newKeys] at layout
  have grown : SameLayout (config.appendKeys batch.newKeys) taken.table.configuration :=
    (same.appendKeys batch.newKeys).trans layout
  -- Both sides move the same columns: the new ones whose names are time keys.
  have moved := grown.bubbled
    ((config.appendKeys batch.newKeys).newTimeColumns config.columns.length
    (config.appendKeys batch.newKeys).columns.length)
  have indices : taken.table.configuration.newTimeColumns model.table.columns.length
    taken.table.columns.length =
      (config.appendKeys batch.newKeys).newTimeColumns config.columns.length
        (config.appendKeys batch.newKeys).columns.length := by
    rw [grown.newTimeColumns, LogTable.columns, LogTable.columns, grown.length, same.length]
  rw [← LogConfiguration.streamKeys_eq_update, configuration, indices]
  exact moved

section Drains

/-- Level columns that are where they belong do not move. -/
theorem bubbleLevelColumns_of_settled (asks : SignalReads) (signals : Nat) {pending : List KeyId}
    (settled : ¬ BubblesLevel model.table pending) :
    bubbleLevelColumns asks signals model pending = model := by
  induction pending with
  | nil => rfl
  | cons key rest ih =>
    -- No pending key moves a column, so none is moved.
    have stays : levelBubbleSource model.table key = none :=
      Option.not_isSome_iff_eq_none.mp fun moves => settled ⟨key, List.mem_cons_self, moves⟩
    unfold bubbleLevelColumns
    rw [stays]
    refine ih fun bubbles => ?_
    obtain ⟨later, member, moves⟩ := bubbles
    exact settled ⟨later, List.mem_cons_of_mem key member, moves⟩

/-- Where no level column has to move, the queue is emptied and the columns stay. -/
theorem drainLevelBubbles_configuration (asks : SignalReads) (signals : Nat)
    (settled : ¬ BubblesLevel model.table model.table.pendingLevelBubbleKeys) :
    (model.drainLevelBubbles asks signals).table.configuration = model.table.configuration := by
  -- Emptying the list of pending keys changes no column.
  have emptied : ¬ BubblesLevel { model.table with pendingLevelBubbleKeys := [] }
      model.table.pendingLevelBubbleKeys :=
    settled
  unfold drainLevelBubbles
  rw [@bubbleLevelColumns_of_settled
    { model with table := { model.table with pendingLevelBubbleKeys := [] } } asks
    signals _ emptied]

/-- No level column moves to its canonical slot after the batch. -/
def SettlesLevels (parse : TimestampParser) (model : LogModel) : ModelOp → Prop
  | .appendBatch asks batch =>
    ∀ timed, model.timedBatch parse asks batch = some timed →
      ¬ BubblesLevel timed.table timed.table.pendingLevelBubbleKeys
  | _ => True

end Drains

section Batches

/-- A batch without rows does to the columns what `Update` does. -/
theorem appendBatch_of_rowless (parse : TimestampParser) (asks : SignalReads) (model : LogModel)
    (rowless : batch.lines = []) : ∃ next, model.appendBatch parse asks batch = some next ∧
      next.table.configuration = model.table.configuration.update batch.newKeys := by
  -- A batch without rows is too small to be cut.
  have whole : model.collapseBatch batch = batch := by
    unfold collapseBatch
    rw [rowless]
    exact if_neg fun small => Nat.not_lt_zero _ small.2
  obtain ⟨table, appended, grown, pending⟩ :=
    ((model.evictFor batch).table.internKeys batch.newKeys).appendBatch_of_rowless parse rowless
  have grew : table.configuration = model.table.configuration.appendKeys batch.newKeys :=
    grown.trans (congrArg (·.appendKeys batch.newKeys) (evictFor_configuration model batch))
  have took : ∃ taken, (model.evictFor batch).takeBatch parse batch = some taken :=
    ⟨_, congrArg (Option.map _) appended⟩
  obtain ⟨taken, took⟩ := took
  have same : taken.table = table := Option.some.inj ((takeBatch_table took).symm.trans appended)
  let indices := (taken.signal (asks 0)).newTimestampColumnIndices model.table.columnCount
    (model.table.previewAppend batch).newColumnCount
  let timed := bubbleTimeColumns asks 1 (taken.signal (asks 0)) indices
  have done : model.timedBatch parse asks batch = some timed := by
    unfold timedBatch
    simp only [whole, took, Option.map_some]
    rfl
  -- No level column waits, so none moves behind the time columns.
  have idle : timed.table.pendingLevelBubbleKeys = [] := by
    rw [bubbleTimeColumns_pending, signal_table, same, pending]
  obtain ⟨again, tookAgain, configuration⟩ := timedBatch_configuration done
  rw [whole, took] at tookAgain
  obtain rfl := Option.some.inj tookAgain
  refine ⟨_, (appendBatch_eq_timedBatch model batch).trans (congrArg (Option.map _) done), ?_⟩
  -- What is left is the table's own layout, with the new time columns in front.
  have settled : ¬ BubblesLevel timed.table timed.table.pendingLevelBubbleKeys := by
    rw [idle]
    rintro ⟨key, member, -⟩
    exact List.not_mem_nil member
  rw [drainLevelBubbles_configuration asks _ settled, configuration, same,
    ← LogConfiguration.streamKeys_eq_update]
  unfold LogConfiguration.streamKeys LogTable.columns
  rw [grew]

/-- Batches that let the level columns stay do to the columns what `Update` does. -/
theorem appendBatch_layout {config : LogConfiguration} {next : LogModel}
    (same : SameLayout config model.table.configuration)
    (settles : model.SettlesLevels parse (.appendBatch asks batch))
    (done : model.appendBatch parse asks batch = some next) :
    SameLayout (config.update batch.newKeys) next.table.configuration := by
  rw [appendBatch_eq_timedBatch] at done
  obtain ⟨timed, begun, rfl⟩ := Option.map_eq_some_iff.mp done
  rw [drainLevelBubbles_configuration asks _ (settles timed begun)]
  exact timedBatch_layout same begun

/-- The operations that append some batches. -/
def appendBatches (batches : List (SignalReads × StreamedBatch)) : List ModelOp :=
  batches.map fun (asks, batch) => .appendBatch asks batch

/-- The keys of some batches, in their order. -/
def streamedKeys (batches : List (SignalReads × StreamedBatch)) : List Bytes := batches.flatMap
    (·.2.newKeys)

/-- The keys of the first batch go before the others. -/
theorem update_streamedKeys_cons (config : LogConfiguration) (asks : SignalReads)
    (batch : StreamedBatch)
    (rest : List (SignalReads × StreamedBatch)) :
    config.update (streamedKeys ((asks, batch) :: rest)) = (config.update batch.newKeys).update
      (streamedKeys rest) :=
  List.foldl_append ..

/-- A run of batches without rows, from any model. -/
theorem run_rowless (parse : TimestampParser) (model : LogModel)
    {batches : List (SignalReads × StreamedBatch)}
    (rowless : ∀ entry ∈ batches, entry.2.lines = []) :
    ∃ next, run parse model (appendBatches batches) = some next ∧
      next.table.configuration = model.table.configuration.update (streamedKeys batches) := by
  -- The batches one after the other; each leaves a layout that the next one extends.
  induction batches generalizing model with
  | nil => exact ⟨model, rfl, rfl⟩
  | cons entry rest ih =>
    obtain ⟨asks, batch⟩ := entry
    obtain ⟨first, began, configuration⟩ :=
      appendBatch_of_rowless parse asks model (rowless (asks, batch) List.mem_cons_self)
    obtain ⟨next, ended, later⟩ :=
      ih first fun entry member => rowless entry (List.mem_cons_of_mem _ member)
    refine ⟨next, ?_, ?_⟩
    · show (ModelOp.appendBatch asks batch :: appendBatches rest).foldlM (step parse) model =
        some next
      rw [List.foldlM_cons]
      exact (congrArg (· >>= _) began).trans ended
    · rw [later, configuration, update_streamedKeys_cons]

/-- A run of any batches that let the level columns stay. -/
theorem run_layout {next : LogModel} {config : LogConfiguration}
    {batches : List (SignalReads × StreamedBatch)}
    (same : SameLayout config model.table.configuration)
    (settles : CleanRun (step parse) (SettlesLevels parse) model (appendBatches batches))
    (done : run parse model (appendBatches batches) = some next) :
    SameLayout (config.update (streamedKeys batches)) next.table.configuration := by
  -- Batch by batch; both layouts grow by the same keys.
  induction batches generalizing model config with
  | nil =>
    obtain rfl : model = next := Option.some.inj done
    exact same
  | cons entry rest ih =>
    obtain ⟨asks, batch⟩ := entry
    obtain ⟨first, began, ended⟩ := foldlM_cons_some done
    rw [update_streamedKeys_cons]
    exact ih (appendBatch_layout same settles.1 began) (settles.2 first began) ended

/-- Streaming lays the columns out as a static load does. Batches of keys give exactly the columns
and the sort index of `Update`, however the keys are cut. With rows, the types of the columns may be
detected: each batch then gives the layout of `Update` before the level columns move, and so does a
run in which none moves. -/
theorem streamed_layout_eq_update (parse : TimestampParser) (model : LogModel) :
    (∀ batches : List (SignalReads × StreamedBatch), (∀ entry ∈ batches, entry.2.lines = []) →
      ∃ next, run parse model (appendBatches batches) = some next ∧
        next.table.configuration = model.table.configuration.update (streamedKeys batches)) ∧
    (∀ (config : LogConfiguration) (asks : SignalReads) (batch : StreamedBatch) (timed : LogModel),
      SameLayout config model.table.configuration → model.timedBatch parse asks batch = some timed →
        SameLayout (config.update batch.newKeys) timed.table.configuration) ∧
    ∀ (batches : List (SignalReads × StreamedBatch)) (next : LogModel),
      CleanRun (step parse) (SettlesLevels parse) model (appendBatches batches) →
        run parse model (appendBatches batches) = some next →
          SameLayout (model.table.configuration.update (streamedKeys batches))
            next.table.configuration :=
  ⟨fun _ rowless => run_rowless parse model rowless, fun _ _ _ _ same done =>
    timedBatch_layout same done,
    fun _ _ settles done => run_layout (.refl _) settles done⟩

/-- A sorted message column, before time columns come in front of it. -/
def sortedConfiguration : LogConfiguration where
  columns := [freshColumn (bytes "msg")]
  sort := ⟨0, true⟩

/-- Three batches of keys, with a time column in the first and in the last. -/
def keyBatches : List (SignalReads × StreamedBatch) :=
  [[bytes "host", bytes "ts"], [bytes "msg", bytes "pid"], [bytes "timestamp"]].map
    fun newKeys => (fun _ => false, ⟨[], [], newKeys, []⟩)

/-- A batch with one row. -/
def rowBatches : List (SignalReads × StreamedBatch) :=
  [(fun _ => false, ⟨[.ofField 0 0 0 (.mmapSlice 0 4)], [5], [bytes "host", bytes "ts"], []⟩)]

/-- The sort follows its column past both time columns, in three batches as with `Update`,
and with a row. -/
theorem sortedConfiguration_layout_eq_update :
    (∃ next, run (fun _ _ => none) (ofConfiguration sortedConfiguration)
      (appendBatches keyBatches) = some next ∧
      next.table.configuration = sortedConfiguration.update (streamedKeys keyBatches) ∧
      next.table.columns.map (·.header) =
        [bytes "timestamp", bytes "ts", bytes "msg", bytes "host", bytes "pid"] ∧
      next.table.configuration.sort.columnIndex = 2) ∧
    ∃ next, run (fun _ _ => none) (ofConfiguration sortedConfiguration)
      (appendBatches rowBatches) = some next ∧
      SameLayout (sortedConfiguration.update (streamedKeys rowBatches))
        next.table.configuration := by
  obtain ⟨keysOnly, batchwise, runwise⟩ :=
    streamed_layout_eq_update (fun _ _ => none) (ofConfiguration sortedConfiguration)
  refine ⟨?_, ?_⟩
  · obtain ⟨next, done, configuration⟩ := keysOnly keyBatches (by decide)
    replace configuration : next.table.configuration = sortedConfiguration.update
      (streamedKeys keyBatches) := configuration
    have columns : (sortedConfiguration.update (streamedKeys keyBatches)).columns.map (·.header) =
        [bytes "timestamp", bytes "ts", bytes "msg", bytes "host", bytes "pid"] := by
      decide
    have sort : (sortedConfiguration.update (streamedKeys keyBatches)).sort.columnIndex = 2 := by
      decide
    refine ⟨next, done, configuration, ?_, ?_⟩
    · rw [LogTable.columns, configuration, columns]
    · rw [configuration, sort]
  · have reached : (run (fun _ _ => none) (ofConfiguration sortedConfiguration)
        (appendBatches rowBatches)).isSome := by
      decide
    obtain ⟨next, done⟩ := Option.isSome_iff_exists.mp reached
    -- The row queues no level column.
    have idle : ((ofConfiguration sortedConfiguration).timedBatch (fun _ _ => none) (fun _ => false)
        ⟨[.ofField 0 0 0 (.mmapSlice 0 4)], [5], [bytes "host", bytes "ts"], []⟩).map
          (·.table.pendingLevelBubbleKeys) = some [] := by
      decide
    refine ⟨next, done, runwise rowBatches next ⟨fun timed began => ?_, fun _ _ => trivial⟩ done⟩
    have pending : timed.table.pendingLevelBubbleKeys = [] :=
      Option.some.inj ((congrArg (Option.map fun timed : LogModel =>
        timed.table.pendingLevelBubbleKeys) began).symm.trans
        idle)
    rw [pending]
    rintro ⟨key, member, -⟩
    exact List.not_mem_nil member

end Batches

end LogModel

end Loglib
