import Loglib.App.LogModel
import Loglib.Table.RetainingSteps

/-! The cached index of the first level column, and the calls that leave it behind the columns. -/

namespace Loglib

section Lists

variable {α : Type*} {p : α → Bool}

/-- The first match behind a part without matches. -/
theorem findIdx?_append_of_none {front : List α} (none_ : ∀ item ∈ front, p item = false)
    (back : List α) :
    (front ++ back).findIdx? p = (back.findIdx? p).map (· + front.length) := by
  have front_ : front.findIdx? p = none := List.findIdx?_eq_none_iff.mpr none_
  rw [List.findIdx?_append, front_, Option.none_or]

/-- An item that moves to the front, with no match up to it, leaves the first match where it is. -/
theorem findIdx?_moveItem_front {items : List α} {srcIndex : Nat} (positive : srcIndex ≠ 0)
    (inside : srcIndex < items.length)
    (none_ : ∀ item ∈ items.take (srcIndex + 1), p item = false) :
    (LogConfiguration.moveItem items srcIndex 0).findIdx? p = items.findIdx? p := by
  -- The items up to the moved one only change places among themselves.
  have moved : LogConfiguration.moveItem items srcIndex 0 =
      ((items.take (srcIndex + 1)).drop srcIndex ++ items.take srcIndex) ++ items.drop
        (srcIndex + 1) := by
    simp [LogConfiguration.moveItem, rotateRange, Nat.pos_of_ne_zero positive]
  have front : ∀ item ∈ (items.take (srcIndex + 1)).drop srcIndex ++ items.take srcIndex,
      p item = false := by
    intro item member
    apply none_
    rcases List.mem_append.mp member with last | first
    · exact List.mem_of_mem_drop last
    · exact (List.take_subset_take_left items (Nat.le_succ srcIndex)) first
  have lengths : ((items.take (srcIndex + 1)).drop srcIndex ++ items.take srcIndex).length =
      (items.take (srcIndex + 1)).length := by
    simp only [List.length_append, List.length_drop, List.length_take]
    omega
  conv_rhs => rw [← List.take_append_drop (srcIndex + 1) items]
  rw [moved, findIdx?_append_of_none front, findIdx?_append_of_none none_, lengths]

end Lists

namespace LogConfiguration

/-- A column that moves to the front from before the first level column leaves that one
where it is. -/
theorem firstLevelColumnIndex_moveColumn (config : LogConfiguration) {srcIndex : Nat}
    (before : ∀ level, config.firstLevelColumnIndex = some level → srcIndex < level) :
    (config.moveColumn srcIndex 0).firstLevelColumnIndex = config.firstLevelColumnIndex := by
  unfold moveColumn
  split
  · rfl
  · -- No column before the moved one is a level column, so it passes none.
    rename_i moves
    simp only [not_or, not_le] at moves
    apply findIdx?_moveItem_front moves.1 moves.2.1
    intro item member
    obtain ⟨position, bound, rfl⟩ := List.getElem_of_mem member
    rw [List.length_take] at bound
    rw [List.getElem_take]
    cases found : config.firstLevelColumnIndex with
    | none => exact List.findIdx?_eq_none_iff.mp found _ (List.getElem_mem _)
    | some level =>
      have near := before level found
      obtain ⟨_, _, earlier⟩ := List.findIdx?_eq_some_iff_getElem.mp found
      simpa using earlier position (by omega)

end LogConfiguration

namespace LogModel

/-- A cached index is the index of the first level column. -/
def Coherent (model : LogModel) : Prop :=
  ∀ cached, model.firstLevelColumnCache = some cached →
    cached = model.table.configuration.firstLevelColumnIndex

/-- Some promoted level column still has to move. -/
def BubblesLevel (table : LogTable) (pending : List KeyId) : Prop :=
  ∃ key ∈ pending, (levelBubbleSource table key).isSome

/-- A batch that the table has taken lets no time column jump over the first level column; or a
level column moves afterwards; or the index has changed with the batch, and nobody asks for it
before the last new time column has moved. -/
def ArrangesCoherently (asks : SignalReads) (oldColumnCount newColumnCount : Nat)
    (model : LogModel) : Prop :=
  (∀ level, model.table.configuration.firstLevelColumnIndex = some level →
    ∀ srcIndex ∈ model.newTimestampColumnIndices oldColumnCount newColumnCount, srcIndex < level) ∨
  BubblesLevel
    (bubbleTimeColumns asks 1 (model.signal (asks 0))
      (model.newTimestampColumnIndices oldColumnCount newColumnCount)).table
    model.table.pendingLevelBubbleKeys ∨
  (model.firstLevelColumnCache = none ∧
    ∀ signal < (model.newTimestampColumnIndices oldColumnCount newColumnCount).countP (· ≠ 0),
      asks signal = false)

/-- The call does not leave the cached index behind. -/
def KeepsLevelColumn (parse : TimestampParser) (model : LogModel) : ModelOp → Prop
  | .appendBatch asks batch =>
    ∀ taken, (model.evictFor (model.collapseBatch batch)).takeBatch parse
      (model.collapseBatch batch) = some taken →
      taken.ArrangesCoherently asks model.table.columnCount
        (model.table.previewAppend (model.collapseBatch batch)).newColumnCount
  | .endStreaming _ cancelled =>
    -- The end of a stream may change the first Level column only through the bubble.
    cancelled = false → ∀ table, model.table.finalizeAutoDetection = some table →
      model.firstLevelColumnCache = none ∨
        table.configuration.firstLevelColumnIndex =
          model.table.configuration.firstLevelColumnIndex ∨
        BubblesLevel table table.pendingLevelBubbleKeys
  | _ => True

section Steps

variable {model : LogModel}

/-- An empty cache is coherent. -/
theorem coherent_of_uncached (uncached : model.firstLevelColumnCache = none) : model.Coherent := by
  intro cached held
  rw [uncached] at held
  exact nomatch held

/-- A coherent cache answers with the first level column. -/
theorem Coherent.answers (coherent : model.Coherent) :
    model.firstLevelColumnIndex = model.table.configuration.firstLevelColumnIndex := by
  unfold firstLevelColumnIndex
  cases held : model.firstLevelColumnCache with
  | none => rfl
  | some cached => exact coherent cached held

/-- A question keeps the cache coherent. -/
theorem Coherent.scanLevelColumn (coherent : model.Coherent) : model.scanLevelColumn.Coherent := by
  intro cached held
  obtain rfl := Option.some.inj held
  exact coherent.answers

/-- A signal keeps the cache coherent. -/
theorem Coherent.signal (coherent : model.Coherent) (asks : Bool) :
    (model.signal asks).Coherent := by
  unfold LogModel.signal
  split
  · exact coherent.scanLevelColumn
  · exact coherent

/-- A signal changes nothing but the cache. -/
@[simp] theorem signal_table (model : LogModel) (asks : Bool) :
    (model.signal asks).table = model.table := by
  unfold LogModel.signal
  split <;> rfl

/-- The same columns keep the cache coherent. -/
theorem Coherent.of_columns (coherent : model.Coherent) {next : LogModel}
    (cache : next.firstLevelColumnCache = model.firstLevelColumnCache)
    (columns : next.table.columns = model.table.columns) : next.Coherent := by
  intro cached held
  rw [coherent cached (cache.symm.trans held)]
  show model.table.columns.findIdx? _ = next.table.columns.findIdx? _
  rw [columns]

/-- A column that the model moves, it moves with an empty cache. -/
theorem moveColumn_coherent (coherent : model.Coherent) (srcIndex destIndex : Nat) (asks : Bool) :
    (model.moveColumn srcIndex destIndex asks).Coherent := by
  unfold LogModel.moveColumn
  split
  · exact coherent
  · exact (coherent_of_uncached rfl).signal asks

/-- Level columns that move keep the cache coherent. -/
theorem bubbleLevelColumns_coherent (asks : SignalReads) (signals : Nat) (coherent : model.Coherent)
    (pending : List KeyId) :
    (bubbleLevelColumns asks signals model pending).Coherent := by
  -- Each move goes through the model, which empties the cache.
  induction pending generalizing signals model with
  | nil => exact coherent
  | cons key rest ih =>
    unfold bubbleLevelColumns
    split
    · exact ih signals coherent
    · exact ih _ (moveColumn_coherent coherent _ _ _)

/-- A level column that still has to move is moved by the model. -/
theorem moveColumn_of_bubble {key : KeyId} {srcIndex : Nat}
    (source : levelBubbleSource model.table key = some srcIndex)
    (asks : Bool) : (model.moveColumn srcIndex LogConfiguration.canonicalLevelColumnIndex
    asks).Coherent := by
  -- A column that still has to move is none of the three cases in which a move does nothing.
  obtain ⟨-, still⟩ := Option.filter_eq_some_iff.mp source
  unfold LogConfiguration.shouldBubbleLevelColumn at still
  split at still
  · exact nomatch still
  · split at still
    · exact nomatch still
    · split at still
      · exact nomatch still
      · rename_i inside several apart
        unfold LogModel.moveColumn
        rw [if_neg]
        · exact (coherent_of_uncached rfl).signal asks
        · rintro (same | past | past)
          · exact apart same
          · exact inside past
          · exact several (Nat.lt_succ_of_le past)

/-- Once a level column moves, the cache is coherent, whatever it held before. -/
theorem bubbleLevelColumns_of_bubble (asks : SignalReads) (signals : Nat) {pending : List KeyId}
    (bubbles : BubblesLevel model.table pending) :
    (bubbleLevelColumns asks signals model pending).Coherent := by
  induction pending generalizing signals with
  | nil =>
    obtain ⟨key, member, -⟩ := bubbles
    exact absurd member List.not_mem_nil
  | cons key rest ih =>
    unfold bubbleLevelColumns
    split
    · -- The first key does not move, so a later one does.
      rename_i stays
      obtain ⟨other, member, moves⟩ := bubbles
      refine ih signals ⟨other, (List.mem_cons.mp member).resolve_left ?_, moves⟩
      rintro rfl
      rw [stays] at moves
      exact nomatch moves
    · rename_i srcIndex source
      exact bubbleLevelColumns_coherent asks _ (moveColumn_of_bubble source _) rest

/-- Draining keeps the cache coherent. -/
theorem drainLevelBubbles_coherent (asks : SignalReads) (signals : Nat)
    (coherent : model.Coherent) :
    (model.drainLevelBubbles asks signals).Coherent := by
  have cleared : ({ model with table := { model.table with pendingLevelBubbleKeys := [] } } :
      LogModel).Coherent :=
    coherent.of_columns rfl rfl
  exact bubbleLevelColumns_coherent asks signals cleared _

/-- Draining makes the cache coherent if a level column moves. -/
theorem drainLevelBubbles_of_bubble (asks : SignalReads) (signals : Nat)
    (bubbles : BubblesLevel model.table model.table.pendingLevelBubbleKeys) :
    (model.drainLevelBubbles asks signals).Coherent :=
  bubbleLevelColumns_of_bubble asks signals bubbles

/-- Time columns that move from before the first level column keep the cache coherent. -/
theorem bubbleTimeColumns_coherent (asks : SignalReads) (signals : Nat) (coherent : model.Coherent)
    {sources : List Nat}
    (before : ∀ level, model.table.configuration.firstLevelColumnIndex = some level →
    ∀ srcIndex ∈ sources, srcIndex < level) :
    (bubbleTimeColumns asks signals model sources).Coherent := by
  induction sources generalizing signals model with
  | nil => exact coherent
  | cons srcIndex rest ih =>
    have later : ∀ level, model.table.configuration.firstLevelColumnIndex = some level →
        ∀ other ∈ rest, other < level :=
      fun level found other member => before level found other (List.mem_cons_of_mem _ member)
    unfold bubbleTimeColumns
    split
    · exact ih signals coherent later
    · -- The move leaves the first level column where it is, and so does the cache.
      have same : (model.table.moveColumn srcIndex 0).configuration.firstLevelColumnIndex =
          model.table.configuration.firstLevelColumnIndex := by
        unfold LogTable.moveColumn
        split
        · rfl
        · exact model.table.configuration.firstLevelColumnIndex_moveColumn fun level found =>
            before level found srcIndex List.mem_cons_self
      refine ih _ (Coherent.signal ?_ _) ?_
      · intro cached held
        exact (coherent cached held).trans same.symm
      · intro level found
        rw [signal_table] at found
        exact later level (same.symm.trans found)

/-- Time columns that are in front already do not move. -/
theorem bubbleTimeColumns_of_front (asks : SignalReads) (signals : Nat) (model : LogModel)
    {sources : List Nat}
    (front : sources.countP (· ≠ 0) = 0) :
    bubbleTimeColumns asks signals model sources = model := by
  -- A source that is at the front already does not move.
  induction sources with
  | nil => rfl
  | cons srcIndex rest ih =>
    rw [List.countP_eq_zero] at front
    have first : srcIndex = 0 := by simpa using front srcIndex List.mem_cons_self
    have later : rest.countP (· ≠ 0) = 0 :=
      List.countP_eq_zero.mpr fun other member => front other (List.mem_cons_of_mem _ member)
    rw [bubbleTimeColumns, if_pos first, ih later]

/-- An empty cache stays empty while time columns move and nobody asks. Whoever asks behind the last
of them is answered from the columns. -/
theorem bubbleTimeColumns_uncached {asks : SignalReads} {signals : Nat}
    (uncached : model.firstLevelColumnCache = none)
    {sources : List Nat}
    (silent : ∀ signal, signals ≤ signal → signal + 1 < signals + sources.countP (· ≠ 0) →
    asks signal = false) :
    (bubbleTimeColumns asks signals model sources).Coherent := by
  induction sources generalizing signals model with
  | nil => exact coherent_of_uncached uncached
  | cons srcIndex rest ih =>
    unfold bubbleTimeColumns
    split
    · -- A column in front is passed over, without a signal.
      rename_i front
      rw [List.countP_cons_of_neg (by simpa using front)] at silent
      exact ih uncached silent
    · rename_i moves
      rw [List.countP_cons_of_pos (by simpa using moves)] at silent
      rcases Nat.eq_zero_or_pos (rest.countP (· ≠ 0)) with last | more
      · -- The last column that moves. Its signal is the first one that may be asked in.
        rw [bubbleTimeColumns_of_front _ _ _ last]
        apply Coherent.signal
        exact coherent_of_uncached uncached
      · -- Another one moves behind it, so nobody asks here.
        apply ih
        · unfold LogModel.signal
          rw [silent signals le_rfl (by omega)]
          exact uncached
        · intro signal from_ below
          exact silent signal (by omega) (by omega)

/-- Moving time columns queues no level column. -/
theorem bubbleTimeColumns_pending (asks : SignalReads) (signals : Nat) (sources : List Nat) :
    (bubbleTimeColumns asks signals model sources).table.pendingLevelBubbleKeys =
    model.table.pendingLevelBubbleKeys := by
  -- Moving a column leaves the pending keys.
  induction sources generalizing signals model with
  | nil => rfl
  | cons srcIndex rest ih =>
    unfold bubbleTimeColumns
    split
    · exact ih signals
    · rw [ih, signal_table]
      show (model.table.moveColumn srcIndex 0).pendingLevelBubbleKeys = _
      unfold LogTable.moveColumn
      split <;> rfl

/-- The cache that a batch leaves is coherent before columns move. -/
theorem takeBatch_coherent {parse : TimestampParser} {batch : StreamedBatch} {taken : LogModel}
    (done : model.takeBatch parse batch = some taken) : taken.Coherent := by
  obtain ⟨table, -, rfl⟩ := Option.map_eq_some_iff.mp done
  intro cached held
  -- The check of the times leaves the table as it is.
  have columns : (updateTimestampMonotonicity { model with table } model.table.rowCount).table =
      table := by
    unfold updateTimestampMonotonicity
    split
    · rfl
    · split <;> rfl
  simp only at held ⊢
  rw [columns]
  -- The column is cached only if it is the one that the table has now.
  split at held
  · rename_i same
    rw [← Option.some.inj held, same]
  · exact nomatch held

/-- The columns that move after a batch leave the cache coherent. -/
theorem arrangeColumns_coherent {asks : SignalReads} {oldColumnCount newColumnCount : Nat}
    (coherent : model.Coherent)
    (arranges : model.ArrangesCoherently asks oldColumnCount newColumnCount) :
    (model.arrangeColumns asks oldColumnCount newColumnCount).Coherent := by
  have sources : (model.signal (asks 0)).newTimestampColumnIndices oldColumnCount newColumnCount =
      model.newTimestampColumnIndices oldColumnCount newColumnCount := by
    unfold newTimestampColumnIndices
    rw [signal_table]
  unfold arrangeColumns
  simp only
  rw [sources]
  rcases arranges with before | bubbles | ⟨uncached, silent⟩
  · apply drainLevelBubbles_coherent
    apply bubbleTimeColumns_coherent _ _ (coherent.signal _)
    intro level found
    rw [signal_table] at found
    exact before level found
  · apply drainLevelBubbles_of_bubble
    rw [bubbleTimeColumns_pending, signal_table]
    exact bubbles
  · apply drainLevelBubbles_coherent
    rcases Nat.eq_zero_or_pos
      ((model.newTimestampColumnIndices oldColumnCount newColumnCount).countP (· ≠ 0))
      with none_ | some_
    · rw [bubbleTimeColumns_of_front _ _ _ none_]
      exact coherent.signal _
    · -- The signal of the batch comes before the first column that moves.
      apply bubbleTimeColumns_uncached
      · unfold LogModel.signal
        rw [silent 0 some_]
        exact uncached
      · intro signal _ below
        exact silent signal (by omega)

end Steps

section Runs

/-- Ranking levels changes no column. -/
theorem refreshLevelRankCache_columns (table : LogTable) (columnIndex : Nat) :
    (table.refreshLevelRankCache columnIndex).columns = table.columns := by
  unfold LogTable.refreshLevelRankCache
  -- Only the cache of the ranks is written.
  split
  · rfl
  · split
    · rfl
    · split
      · rfl
      · split <;> rfl

/-- Seeding the dictionaries of the configured columns changes no column. -/
theorem refreshSnapshotEnumKeys_columns (table : LogTable) :
    table.refreshSnapshotEnumKeys.columns = table.columns := by
  -- Column by column; wiring keys changes no column.
  unfold LogTable.refreshSnapshotEnumKeys
  refine foldl_invariant (fun next : LogTable => next.columns = table.columns) ?_ rfl
  intro state columnIndex _ same
  unfold LogTable.refreshSnapshotEnumColumn
  split
  · exact same
  · split
    · rw [refreshLevelRankCache_columns, LogTable.wireColumnKeys_columns, same]
    · exact same

/-- A new stream changes no column. -/
theorem beginStreaming_columns (table : LogTable) (source : Option LineSource) :
    (table.beginStreaming source).columns = table.columns := by
  show LogTable.columns (LogTable.refreshSnapshotEnumKeys _) = _
  rw [refreshSnapshotEnumKeys_columns]
  exact foldl_invariant (fun next : LogTable => next.columns = table.columns) (fun _ _ _ same =>
    same) rfl

/-- Eviction changes no column. -/
theorem evictPrefixRows_columns (table : LogTable) (count : Nat) :
    (table.evictPrefixRows count).columns = table.columns := by
  unfold LogTable.evictPrefixRows
  split
  · rfl
  · split <;> rfl

/-- A step that does not leave the cached index behind keeps the cache coherent. -/
theorem step_coherent {parse : TimestampParser} {model next : LogModel} {op : ModelOp}
    (coherent : model.Coherent)
    (keeps : KeepsLevelColumn parse model op) (done : model.step parse op = some next) :
    next.Coherent := by
  cases op with
  -- Where no column changes, the cache answers as before.
  | beginStreaming source =>
    obtain rfl := Option.some.inj done
    exact coherent.of_columns rfl (beginStreaming_columns _ _)
  | appendStreaming source =>
    obtain rfl := Option.some.inj done
    exact coherent.of_columns rfl rfl
  | parserLine source rawLine ownedBytes =>
    obtain rfl := Option.some.inj done
    exact coherent.of_columns rfl rfl
  | parserOwned source text =>
    obtain rfl := Option.some.inj done
    exact coherent.of_columns rfl rfl
  | appendBatch asks batch =>
    -- The table takes the batch with a cache that fits, and the columns that move keep it so.
    obtain ⟨taken, took, rfl⟩ := Option.map_eq_some_iff.mp done
    exact arrangeColumns_coherent (takeBatch_coherent took) (keeps taken took)
  | endStreaming asks cancelled =>
    unfold step endStreaming at done
    simp only at done
    split at done
    · -- A cancelled stream leaves the columns alone.
      obtain rfl := Option.some.inj done
      exact coherent.of_columns rfl rfl
    · -- The last sweep may turn columns into level columns, without emptying the cache.
      rename_i runs
      obtain ⟨table, swept, rfl⟩ := Option.map_eq_some_iff.mp done
      rcases keeps (by simpa using runs) table swept with uncached | same | bubbles
      · apply drainLevelBubbles_coherent
        apply Coherent.signal
        exact coherent_of_uncached uncached
      · apply drainLevelBubbles_coherent
        apply Coherent.signal
        intro cached held
        exact (coherent cached held).trans same.symm
      · -- A level column moves, and a move empties the cache.
        apply drainLevelBubbles_of_bubble
        rw [signal_table]
        exact bubbles
  -- What replaces columns or their types empties the cache.
  | reset =>
    obtain rfl := Option.some.inj done
    exact coherent_of_uncached rfl
  | moveColumn srcIndex destIndex asks =>
    obtain rfl := Option.some.inj done
    exact moveColumn_coherent coherent srcIndex destIndex asks
  | applyColumnTypeEdit columnIndex type autoDetect =>
    unfold step applyColumnTypeEdit at done
    simp only at done
    split at done
    · obtain rfl := Option.some.inj done
      exact coherent
    · split at done
      · obtain rfl := Option.some.inj done
        exact coherent
      · obtain ⟨table, -, rfl⟩ := Option.map_eq_some_iff.mp done
        exact coherent_of_uncached rfl
  | notifyColumnEdited columnIndex =>
    obtain rfl := Option.some.inj done
    unfold notifyColumnEdited
    split
    · exact coherent
    · exact coherent_of_uncached rfl
  | notifyConfigurationReplaced configuration =>
    obtain rfl := Option.some.inj done
    exact coherent_of_uncached rfl
  | setRetentionCap cap paused =>
    obtain rfl := Option.some.inj done
    unfold setRetentionCap
    simp only
    split
    · exact coherent.of_columns rfl rfl
    · split
      · exact coherent.of_columns rfl (evictPrefixRows_columns _ _)
      · exact coherent.of_columns rfl rfl
  | firstLevelColumnIndex =>
    obtain rfl := Option.some.inj done
    exact coherent.scanLevelColumn

/-- In every run whose calls do not leave the cached index behind, the answer is the lowest index of
a level column. -/
theorem run_firstLevelColumnIndex {parse : TimestampParser} {configuration : LogConfiguration}
    {ops : List ModelOp}
    {model : LogModel} (clean : CleanRun (step parse) (KeepsLevelColumn parse)
    (ofConfiguration configuration) ops)
    (done : run parse (ofConfiguration configuration) ops = some model) :
    model.firstLevelColumnIndex = model.table.columns.findIdx? (·.type = .level) := by
  have coherent : model.Coherent :=
    clean.invariant Coherent (fun _ _ _ holds keeps => step_coherent holds keeps)
      (coherent_of_uncached rfl) done
  exact coherent.answers

/-- One level column. -/
def levelConfiguration : LogConfiguration where
  columns :=
    [{ header := bytes "level", keys := [bytes "level"], printFormat := defaultPrintFormat, type := .level
       parseFormats := [], levelMapping := [], autoDetect := false }]
  sort := ⟨-1, false⟩

/-- A batch that only brings a new key. -/
def keyBatch (key : Bytes) : StreamedBatch := ⟨[], [], [key], []⟩

/-- A plain key comes, and then a column is moved. -/
def plainKeyRun : List ModelOp :=
  [.beginStreaming none, .firstLevelColumnIndex,
    .appendBatch (fun _ => true) (keyBatch (bytes "msg")),
    .moveColumn 0 1 true]

/-- The answer after a plain key and a move is the column the level has moved to. -/
theorem plainKeyRun_firstLevelColumnIndex :
    ∃ model, run (fun _ _ => none) (ofConfiguration levelConfiguration) plainKeyRun = some model ∧
      model.firstLevelColumnIndex = model.table.columns.findIdx? (·.type = .level) ∧
      model.firstLevelColumnIndex = some 1 := by
  have reached : (run (fun _ _ => none) (ofConfiguration levelConfiguration) plainKeyRun).map
    (·.firstLevelColumnIndex) =
      some (some 1) := by
    decide
  obtain ⟨model, done, answer⟩ := Option.map_eq_some_iff.mp reached
  have clean : CleanRun (step fun _ _ => none) (KeepsLevelColumn fun _ _ =>
    none) (ofConfiguration levelConfiguration)
      plainKeyRun := by
    refine ⟨trivial, fun begun first =>
      ⟨trivial, fun scanned second => ⟨fun taken took => ?_, fun appended third => ?_⟩⟩⟩
    · -- The new key is no time column, so none moves.
      left
      intro level found srcIndex member
      obtain rfl := Option.some.inj first
      obtain rfl := Option.some.inj second
      have noneNew : (takeBatch (fun _ _ => none)
          (evictFor (((ofConfiguration levelConfiguration).beginStreaming none).scanLevelColumn)
            (keyBatch (bytes "msg")))
          (keyBatch (bytes "msg"))).map (newTimestampColumnIndices · 1 2) = some [] := by
        decide
      have same := (congrArg (Option.map (newTimestampColumnIndices · 1 2)) took).symm.trans noneNew
      have empty : taken.newTimestampColumnIndices 1 2 = [] := Option.some.inj same
      have inside : srcIndex ∈ taken.newTimestampColumnIndices 1 2 := member
      rw [empty] at inside
      exact absurd inside List.not_mem_nil
    · exact ⟨trivial, fun _ _ => trivial⟩
  exact ⟨model, done, run_firstLevelColumnIndex clean done, answer⟩

/-- A timestamp key comes, and its column moves over the level column. -/
def timeKeyRun : List ModelOp :=
  [.beginStreaming none, .appendBatch (fun _ => false) (keyBatch (bytes "ts"))]

/-- The time column that moves to the front leaves the cached index behind. -/
theorem timeKeyRun_leavesIndexBehind :
    ∃ model, run (fun _ _ => none) (ofConfiguration levelConfiguration) timeKeyRun = some model ∧
      model.firstLevelColumnIndex = some 0 ∧ model.table.columns.findIdx?
        (·.type = .level) = some 1 := by
  -- The whole run is evaluated.
  have reached : (run (fun _ _ => none) (ofConfiguration levelConfiguration) timeKeyRun).map
    (fun model =>
      (model.firstLevelColumnIndex, model.table.columns.findIdx? (·.type = .level))) = some (some 0,
        some 1) := by
    decide
  obtain ⟨model, done, answers⟩ := Option.map_eq_some_iff.mp reached
  exact ⟨model, done, congrArg Prod.fst answers, congrArg Prod.snd answers⟩

end Runs

end LogModel

end Loglib
