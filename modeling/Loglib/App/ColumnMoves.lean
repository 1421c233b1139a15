import Loglib.App.LogFilterModel
import Loglib.App.LogModel
import Loglib.App.StreamedLayout
import Loglib.Table.ValueRuns

/-! The bookkeeping of a column move: columns, cached ids, saved column indices and the sort column
of the proxy. -/

namespace Loglib

/-- Where the item at a position came from when an item moved. -/
def movedFrom (srcIndex destIndex position : Nat) : Nat :=
  if position = destIndex then srcIndex
  else if srcIndex ≤ position ∧ position < destIndex then position + 1
  else if destIndex < position ∧ position ≤ srcIndex then position - 1
  else position

/-- Moving an item back undoes the move. -/
theorem movedFrom_movedFrom (srcIndex destIndex position : Nat) :
    movedFrom srcIndex destIndex (movedFrom destIndex srcIndex position) = position := by
  unfold movedFrom
  split_ifs <;> omega

/-- A moved list has each item where it came from. -/
theorem getElem?_moveItem {α : Type*} {items : List α} {srcIndex destIndex : Nat}
    (inSrc : srcIndex < items.length) (inDest : destIndex < items.length) (position : Nat) :
    (LogConfiguration.moveItem items srcIndex destIndex)[position]? =
      items[movedFrom srcIndex destIndex position]? := by
  unfold LogConfiguration.moveItem rotateRange movedFrom
  -- To the right or to the left: the columns between the two places shift by one.
  split
  · simp only [List.getElem?_append, List.length_append, List.length_take, List.length_drop,
      List.getElem?_drop, List.getElem?_take]
    split_ifs <;> first | omega | (congr 1 <;> omega)
  · simp only [List.getElem?_append, List.length_append, List.length_take, List.length_drop,
      List.getElem?_drop, List.getElem?_take]
    split_ifs <;> first | omega | (congr 1 <;> omega)

/-- A `beginMoveColumns` of top-level columns: which columns move, and in front of which one. -/
structure ColumnMove where
  fromColumn : Nat
  toLast : Nat
  destColumn : Nat
deriving DecidableEq, Repr

/-- Qt's place to insert before, for a column that is to end at a position. -/
def LogModel.qtDestinationChild (srcIndex destIndex : Nat) : Nat :=
  if srcIndex < destIndex then destIndex + 1 else destIndex

/-- What `MoveColumn` announces, if it moves a column. -/
def LogModel.announcedMove (model : LogModel) (srcIndex destIndex : Nat) : Option ColumnMove :=
  if srcIndex = destIndex ∨ model.table.columnCount ≤ srcIndex ∨
    model.table.columnCount ≤ destIndex then none
  else some ⟨srcIndex, srcIndex, LogModel.qtDestinationChild srcIndex destIndex⟩

/-- The proxy behind an announcement. -/
def LogFilterModel.followMove (proxy : LogFilterModel) : Option ColumnMove → LogFilterModel
  | none => proxy
  | some move => proxy.onSourceColumnsMoved move.fromColumn move.toLast move.destColumn

namespace LogConfiguration

section Remapping

variable (srcIndex destIndex : Nat)

/-- The remapped index is where the item of a position ends up. -/
theorem remap_eq_movedFrom (position : Nat) :
    remapColumnIndexAfterMove position srcIndex destIndex =
      movedFrom destIndex srcIndex position := by
  unfold remapColumnIndexAfterMove movedFrom
  split_ifs <;> omega

/-- Remapping after the opposite move gives every index back, also one of no column. -/
theorem remap_remap (columnIndex source target : Int) :
    remapColumnIndexAfterMove
      (remapColumnIndexAfterMove columnIndex source target) target source = columnIndex := by
  unfold remapColumnIndexAfterMove
  split_ifs <;> omega

variable {srcIndex destIndex} {count : Nat}

/-- A move stays among the columns. -/
theorem movedFrom_lt (inSrc : srcIndex < count) (inDest : destIndex < count) {position : Nat}
    (inside : position < count) :
    movedFrom srcIndex destIndex position < count := by
  unfold movedFrom
  split_ifs <;> omega

/-- The permutation of a move: from the place of each column to its new place. -/
def columnPermutation (inSrc : srcIndex < count) (inDest : destIndex < count) :
    Equiv.Perm (Fin count) where
  toFun position := ⟨movedFrom destIndex srcIndex position, movedFrom_lt inDest inSrc position.isLt⟩
  invFun position := ⟨movedFrom srcIndex destIndex position,
    movedFrom_lt inSrc inDest position.isLt⟩
  left_inv position := Fin.ext (movedFrom_movedFrom srcIndex destIndex position)
  right_inv position := Fin.ext (movedFrom_movedFrom destIndex srcIndex position)

end Remapping

end LogConfiguration

section Agreement

variable {srcIndex destIndex : Nat}

/-- The items of a moved list stand at the new places. -/
theorem getElem?_moveItem_place {α : Type*} {items : List α} (inSrc : srcIndex < items.length)
    (inDest : destIndex < items.length) (position : Nat) :
    (LogConfiguration.moveItem items srcIndex destIndex)[movedFrom destIndex srcIndex position]? =
      items[position]? := by
  -- The list has at each place the item of the place that the opposite move leads to.
  rw [getElem?_moveItem inSrc inDest, movedFrom_movedFrom]

/-- Nothing moves from a place to the same place. -/
theorem movedFrom_self (place position : Nat) : movedFrom place place position = position := by
  unfold movedFrom
  split_ifs <;> omega

/-- The columns of a configuration stand at the new places. -/
theorem LogConfiguration.getElem?_moveColumn {config : LogConfiguration}
    (inSrc : srcIndex < config.columns.length)
    (inDest : destIndex < config.columns.length) (position : Nat) :
    (config.moveColumn srcIndex destIndex).columns[movedFrom destIndex srcIndex position]? =
      config.columns[position]? := by
  unfold LogConfiguration.moveColumn
  by_cases same : srcIndex = destIndex
  · rw [if_pos (.inl same), same, movedFrom_self]
  · rw [if_neg (by omega)]
    exact getElem?_moveItem_place inSrc inDest position

/-- The cached ids of the columns stand at the new places. -/
theorem LogTable.getElem?_columnKeyIds_moveColumn {table : LogTable}
    (inSrc : srcIndex < table.columnKeyIds.length)
    (inDest : destIndex < table.columnKeyIds.length) (position : Nat) :
    (table.moveColumn srcIndex destIndex).columnKeyIds[movedFrom destIndex srcIndex position]? =
      table.columnKeyIds[position]? := by
  unfold LogTable.moveColumn
  by_cases same : srcIndex = destIndex
  · rw [if_pos (.inl same), same, movedFrom_self]
  · rw [if_neg (by omega)]
    exact getElem?_moveItem_place inSrc inDest position

/-- The model moves the columns of its table, whoever asks for the level column meanwhile. -/
theorem LogModel.moveColumn_table (model : LogModel) (asks : Bool)
    (inSrc : srcIndex < model.table.columnCount)
    (inDest : destIndex < model.table.columnCount) :
    (model.moveColumn srcIndex destIndex asks).table =
      model.table.moveColumn srcIndex destIndex := by
  unfold LogModel.moveColumn
  by_cases same : srcIndex = destIndex
  · rw [if_pos (.inl same), LogTable.moveColumn, if_pos (.inl same)]
  · rw [if_neg (by omega), LogModel.signal]
    -- The signals that follow the move read the table and leave it as it is.
    split <;> rfl

/-- A column that moves by itself takes the sort column along as the remapping says. -/
theorem movedSortColumn_eq (srcIndex destIndex column : Nat) :
    (LogFilterModel.movedSortColumn srcIndex srcIndex
      (LogModel.qtDestinationChild srcIndex destIndex) column : Int) =
      LogConfiguration.remapColumnIndexAfterMove column srcIndex destIndex := by
  unfold LogFilterModel.movedSortColumn LogModel.qtDestinationChild
    LogConfiguration.remapColumnIndexAfterMove
  dsimp only
  -- The place to insert before is one behind the final one exactly for moves to the right.
  split_ifs <;> omega

/-- The proxy follows an announced move as the remapping says, and without a move it keeps
its sort column. -/
theorem followMove_sortColumn (model : LogModel) (proxy : LogFilterModel)
    (inSrc : srcIndex < model.table.columnCount)
    (inDest : destIndex < model.table.columnCount) {sortColumn : Nat}
    (sorted : proxy.sortColumn = some sortColumn) :
    ∃ moved : Nat, (proxy.followMove (model.announcedMove srcIndex destIndex)).sortColumn =
      some moved ∧
      (moved : Int) = LogConfiguration.remapColumnIndexAfterMove sortColumn srcIndex destIndex := by
  unfold LogModel.announcedMove
  by_cases same : srcIndex = destIndex
  · -- The model announces nothing, and the remapping leaves every index alone.
    rw [if_pos (.inl same)]
    refine ⟨sortColumn, sorted, ?_⟩
    rw [LogConfiguration.remapColumnIndexAfterMove, if_pos (congrArg Nat.cast same)]
  · have moves : ¬(srcIndex = destIndex ∨ model.table.columnCount ≤ srcIndex ∨
        model.table.columnCount ≤ destIndex) := by
      omega
    -- Qt takes the move: its place lies outside the moved column and the gap behind it.
    have taken : ¬(srcIndex ≤ LogModel.qtDestinationChild srcIndex destIndex ∧
        LogModel.qtDestinationChild srcIndex destIndex ≤ srcIndex + 1) := by
      unfold LogModel.qtDestinationChild
      split <;> omega
    rw [if_neg moves]
    refine ⟨_, ?_, movedSortColumn_eq srcIndex destIndex sortColumn⟩
    simp only [LogFilterModel.followMove, LogFilterModel.onSourceColumnsMoved, if_neg taken, sorted,
      Option.map_some]

/-- A column move has one permutation: the columns and the cached ids are permuted by it,
the remapping computes it and the opposite one its inverse, and the sort column of the
proxy follows it. -/
theorem moveColumn_agrees (model : LogModel) {count : Nat}
    (columns : model.table.columns.length = count)
    (ids : model.table.columnKeyIds.length = count) (inSrc : srcIndex < count)
    (inDest : destIndex < count) (asks : Bool) :
    ∃ place : Equiv.Perm (Fin count),
      (∀ column, (model.moveColumn srcIndex destIndex asks).table.columns[(place column).val]? =
        model.table.columns[column.val]?) ∧
      (∀ column, (model.moveColumn srcIndex destIndex
        asks).table.columnKeyIds[(place column).val]? =
        model.table.columnKeyIds[column.val]?) ∧
      (∀ column, LogConfiguration.remapColumnIndexAfterMove column.val srcIndex destIndex =
        (place column).val) ∧
      (∀ column, LogConfiguration.remapColumnIndexAfterMove column.val destIndex srcIndex =
        (place.symm column).val) ∧
      (∀ columnIndex : Int, LogConfiguration.remapColumnIndexAfterMove
        (LogConfiguration.remapColumnIndexAfterMove columnIndex srcIndex destIndex) destIndex
          srcIndex = columnIndex) ∧
      ∀ (proxy : LogFilterModel) (sortColumn : Fin count), proxy.sortColumn = some sortColumn.val →
        (proxy.followMove (model.announcedMove srcIndex destIndex)).sortColumn = some
          (place sortColumn).val := by
  -- The permutation of the final places is the one that each part follows.
  subst columns
  rw [model.moveColumn_table asks inSrc inDest]
  refine ⟨LogConfiguration.columnPermutation inSrc inDest, fun column => ?_, fun column => ?_,
    fun column => ?_,
    fun column => ?_, fun columnIndex => ?_, fun proxy sortColumn sorted => ?_⟩
  · rw [LogTable.columns, LogTable.moveColumn_configuration ids]
    exact LogConfiguration.getElem?_moveColumn inSrc inDest column
  · exact LogTable.getElem?_columnKeyIds_moveColumn (inSrc.trans_eq ids.symm)
      (inDest.trans_eq ids.symm) column
  · exact LogConfiguration.remap_eq_movedFrom srcIndex destIndex column
  · exact LogConfiguration.remap_eq_movedFrom destIndex srcIndex column
  · exact LogConfiguration.remap_remap columnIndex srcIndex destIndex
  · -- The proxy is told the place to insert before, and comes to the final place.
    obtain ⟨moved, held, same⟩ := followMove_sortColumn model proxy inSrc inDest sorted
    rw [held, Option.some.injEq, ← Nat.cast_inj (R := Int), same]
    exact LogConfiguration.remap_eq_movedFrom srcIndex destIndex sortColumn

/-- The third of three columns moves to the front, which pushes the sort column of the
proxy to the right. -/
theorem moveColumn_agrees_third :
    ∃ (model : LogModel) (place : Equiv.Perm (Fin 3)), place 2 = 0 ∧
      ∀ proxy : LogFilterModel, proxy.sortColumn = some 1 →
        (proxy.followMove (model.announcedMove 2 0)).sortColumn = some 2 := by
  let model := LogModel.ofConfiguration
    ⟨[bytes "a", bytes "b", bytes "c"].map fun key => LogTable.pinnedColumn key [key], ⟨-1, false⟩⟩
  obtain ⟨place, -, -, remaps, -, -, follows⟩ :=
    moveColumn_agrees model (show model.table.columns.length = 3 from rfl) rfl
    (show 2 < 3 by decide) (show 0 < 3 by decide) false
  -- The remapping says where the second and the third column go.
  have second : place 1 = 2 := Fin.ext (Nat.cast_inj.mp (remaps 1).symm)
  have third : place 2 = 0 := Fin.ext (Nat.cast_inj.mp (remaps 2).symm)
  refine ⟨model, place, third, fun proxy sorted => ?_⟩
  rw [follows proxy 1 sorted, second]
  rfl

end Agreement

end Loglib
