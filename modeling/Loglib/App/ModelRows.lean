import Loglib.App.LogModel
import Loglib.Basic.LastItems
import Loglib.Table.Eviction
import Loglib.Table.TableFrames

/-! What the model's operations do to the rows of its table. -/

namespace Loglib

namespace LogModel

open LogTable (RowFrame)

section Frames

variable {model next : LogModel}

/-- What the work on columns leaves alone: the rows, the retention cap, and whether a
stream is active. -/
structure ModelFrame (model next : LogModel) : Prop where
  rows : RowFrame model.table next.table
  retentionCap : next.retentionCap = model.retentionCap
  streamingActive : next.streamingActive = model.streamingActive

/-- A model keeps what it has. -/
@[refl] theorem ModelFrame.refl (model : LogModel) : ModelFrame model model := ⟨.refl _, rfl, rfl⟩

/-- Frames compose. -/
theorem ModelFrame.trans {last : LogModel} (first : ModelFrame model next)
    (second : ModelFrame next last) :
    ModelFrame model last :=
  ⟨first.rows.trans second.rows, second.retentionCap.trans first.retentionCap,
    second.streamingActive.trans first.streamingActive⟩

/-- Reading the level column changes no row. -/
theorem modelFrame_signal (model : LogModel) (asks : Bool) :
    ModelFrame model (model.signal asks) := by
  unfold signal
  split
  · exact ⟨.refl _, rfl, rfl⟩
  · exact .refl model

/-- Moving a column changes no row. -/
theorem modelFrame_moveColumn (model : LogModel) (srcIndex destIndex : Nat) (asks : Bool) :
    ModelFrame model (model.moveColumn srcIndex destIndex asks) := by
  unfold moveColumn
  split
  · exact .refl model
  · -- A move changes the order of the columns and empties the cache.
    have moved : ModelFrame model
        { model with
          table := model.table.moveColumn srcIndex destIndex
          firstLevelColumnCache := none } :=
      ⟨LogTable.rowFrame_moveColumn model.table srcIndex destIndex, rfl, rfl⟩
    exact moved.trans (modelFrame_signal _ asks)

/-- New time columns move to the front. -/
theorem modelFrame_bubbleTimeColumns (asks : SignalReads) (signals : Nat) (model : LogModel)
    (sources : List Nat) :
    ModelFrame model (bubbleTimeColumns asks signals model sources) := by
  -- The induction is on the columns that are left to move.
  induction sources generalizing signals model with
  | nil => exact .refl model
  | cons srcIndex rest ih =>
    unfold bubbleTimeColumns
    split
    · exact ih signals model
    · have moved : ModelFrame model { model with table := model.table.moveColumn srcIndex 0 } :=
        ⟨LogTable.rowFrame_moveColumn model.table srcIndex 0, rfl, rfl⟩
      exact (moved.trans (modelFrame_signal _ (asks signals))).trans (ih _ _)

/-- Level columns move to their canonical slot. -/
theorem modelFrame_bubbleLevelColumns (asks : SignalReads) (signals : Nat) (model : LogModel)
    (pending : List KeyId) :
    ModelFrame model (bubbleLevelColumns asks signals model pending) := by
  -- Column by column; each move keeps the rows.
  induction pending generalizing signals model with
  | nil => exact .refl model
  | cons key rest ih =>
    unfold bubbleLevelColumns
    split
    · exact ih signals model
    · exact (modelFrame_moveColumn model _ _ _).trans (ih _ _)

/-- The columns are arranged after a batch. -/
theorem modelFrame_arrangeColumns (asks : SignalReads) (oldColumnCount newColumnCount : Nat)
    (model : LogModel) :
    ModelFrame model (model.arrangeColumns asks oldColumnCount newColumnCount) := by
  let bubbled := bubbleTimeColumns asks 1 (model.signal (asks 0))
    ((model.signal (asks 0)).newTimestampColumnIndices oldColumnCount newColumnCount)
  have timed : ModelFrame model bubbled :=
    (modelFrame_signal model (asks 0)).trans (modelFrame_bubbleTimeColumns asks 1 _ _)
  -- Draining forgets the queue first, which changes no row either.
  have forgotten : ModelFrame bubbled
      { bubbled with table := { bubbled.table with pendingLevelBubbleKeys := [] } } :=
    ⟨.of_eq rfl rfl, rfl, rfl⟩
  have levelled := modelFrame_bubbleLevelColumns asks (newColumnCount + 1)
    { bubbled with table := { bubbled.table with pendingLevelBubbleKeys := [] } }
      bubbled.table.pendingLevelBubbleKeys
  exact timed.trans (forgotten.trans levelled)

/-- The table takes a batch at its end. -/
theorem modelFrame_takeBatch {parse : TimestampParser} {batch : StreamedBatch}
    (done : model.takeBatch parse batch = some next) :
    ModelFrame { model with table := model.table.appendLines batch } next := by
  obtain ⟨table, appended, same⟩ := Option.map_eq_some_iff.mp done
  have interned : RowFrame (model.table.appendLines batch)
      ((model.table.internKeys batch.newKeys).appendLines batch) :=
    .of_eq rfl rfl
  have rows := interned.trans (LogTable.rowFrame_appendBatch appended)
  rw [← same]
  -- The checks of the timestamps change neither rows nor settings.
  simp only [updateTimestampMonotonicity]
  split
  · exact ⟨rows, rfl, rfl⟩
  · split
    · exact ⟨rows, rfl, rfl⟩
    · exact ⟨rows, rfl, rfl⟩

/-- `AppendBatch` drops rows at the front, and takes what is left of the batch. -/
theorem modelFrame_appendBatch {parse : TimestampParser} {asks : SignalReads}
    {batch : StreamedBatch}
    (done : model.appendBatch parse asks batch = some next) :
    ModelFrame
      { model with
        table := (model.evictFor (model.collapseBatch batch)).table.appendLines
          (model.collapseBatch batch) } next := by
  obtain ⟨taken, begun, same⟩ := Option.map_eq_some_iff.mp done
  rw [← same]
  have took := modelFrame_takeBatch begun
  -- Taking the batch is what changes the rows; arranging the columns does not.
  have evicted : ModelFrame
      { model with
        table := (model.evictFor (model.collapseBatch batch)).table.appendLines
          (model.collapseBatch batch) } taken :=
    ⟨took.rows, took.retentionCap, took.streamingActive⟩
  exact evicted.trans (modelFrame_arrangeColumns asks _ _ taken)

end Frames

end LogModel

end Loglib
