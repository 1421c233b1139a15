import Loglib.Table.LogConfiguration

/-! Where new columns go: each time column moves to the front as it is added, or after the batch
that added it. -/

namespace Loglib

namespace LogConfiguration

/-- A further column behind the others. -/
def push (config : LogConfiguration) (column : Column) : LogConfiguration :=
  { config with columns := config.columns ++ [column] }

/-- One key of `Update`: a fresh time column moves to the front, unless it is alone. -/
def updateKey (config : LogConfiguration) (key : Bytes) : LogConfiguration :=
  if config.isKeyInAnyColumn key then config
  else
    let grown := config.push (freshColumn key)
    if isTimestampKey key && 1 < grown.columns.length then grown.moveColumn
      (grown.columns.length - 1) 0
    else grown

/-- `Update`, with the keys in the order in which the data gives them. -/
def update (config : LogConfiguration) (keys : List Bytes) : LogConfiguration :=
  keys.foldl updateKey config

/-- The columns from an index on that are time columns. -/
def newTimeColumns (config : LogConfiguration) (oldColumnCount newColumnCount : Nat) : List Nat :=
  (List.range' oldColumnCount (newColumnCount - oldColumnCount)).filter fun columnIndex =>
    (config.columns[columnIndex]?.map (·.type)) = some .time

/-- A new time column moves to the front, unless it is there. -/
def bubbleTimeColumn (config : LogConfiguration) (srcIndex : Nat) : LogConfiguration :=
  if srcIndex = 0 then config else config.moveColumn srcIndex 0

/-- What a batch of keys does to the columns: all are appended, and then the new time
columns move. -/
def streamKeys (config : LogConfiguration) (newKeys : List Bytes) : LogConfiguration :=
  let grown := config.appendKeys newKeys
  (grown.newTimeColumns config.columns.length grown.columns.length).foldl bubbleTimeColumn grown

section Moves

variable {config : LogConfiguration} {srcIndex : Nat}

/-- Moving an item to the front does not touch what is behind it. -/
theorem moveItem_front_append {α : Type*} {items : List α} (inside : srcIndex < items.length)
    (last : α) :
    moveItem (items ++ [last]) srcIndex 0 = moveItem items srcIndex 0 ++ [last] := by
  unfold moveItem
  split
  · -- Every part but the last one ends inside the old items.
    simp only [rotateRange, List.take_zero, List.nil_append, List.drop_zero,
      List.take_append_of_le_length (Nat.succ_le_of_lt inside),
      List.take_append_of_le_length (Nat.le_of_lt inside),
      List.drop_append_of_le_length (Nat.succ_le_of_lt inside), List.append_assoc]
  · rename_i front
    have first : srcIndex = 0 := by omega
    subst first
    simp only [rotateRange, List.take_zero, List.nil_append, Nat.zero_add,
      List.take_append_of_le_length (Nat.succ_le_of_lt inside),
      List.drop_append_of_le_length (Nat.succ_le_of_lt inside), List.append_assoc]

/-- Moving an item to the front only reorders the items. -/
theorem moveItem_front_perm {α : Type*} (items : List α) :
    (moveItem items srcIndex 0).Perm items := by
  unfold moveItem
  split
  · -- The moved item is swapped with the stretch in front of it, and the rest stays.
    have swapped : ((items.take (srcIndex + 1)).drop srcIndex ++ items.take srcIndex).Perm
        (items.take (srcIndex + 1)) := by
      have parts : items.take srcIndex ++ (items.take (srcIndex + 1)).drop srcIndex = items.take
          (srcIndex + 1) := by
        have front : (items.take (srcIndex + 1)).take srcIndex = items.take srcIndex := by
          rw [List.take_take, Nat.min_eq_left (Nat.le_succ srcIndex)]
        rw [← front, List.take_append_drop]
      exact List.perm_append_comm.trans (List.Perm.of_eq parts)
    have whole := swapped.append_right (items.drop (srcIndex + 1))
    rw [List.take_append_drop] at whole
    simpa only [rotateRange, List.take_zero, List.nil_append, List.drop_zero] using whole
  · -- The first item is in front already.
    rename_i front
    have first : srcIndex = 0 := by omega
    subst first
    have parts := List.take_append_drop 1 items
    exact List.Perm.of_eq (by simpa only [rotateRange, List.take_zero,
        List.nil_append, Nat.zero_add, List.drop_zero,
      List.drop_take_self] using parts)

/-- A move to the front does not touch a column behind the others. -/
theorem bubbleTimeColumn_push (inside : srcIndex < config.columns.length) (column : Column) :
    (config.push column).bubbleTimeColumn srcIndex = (config.bubbleTimeColumn srcIndex).push
      column := by
  unfold bubbleTimeColumn
  split
  · rfl
  · -- The pushed column stands behind the one that moves.
    rename_i positive
    have size : (config.push column).columns.length = config.columns.length + 1 := by simp [push]
    have moves : ¬ (srcIndex = 0 ∨ config.columns.length ≤ srcIndex ∨
        config.columns.length ≤ 0) := by omega
    have movesToo : ¬ (srcIndex = 0 ∨ (config.push column).columns.length ≤ srcIndex ∨
        (config.push column).columns.length ≤ 0) := by omega
    unfold moveColumn
    rw [if_neg moves, if_neg movesToo]
    simp only [push, moveItem_front_append inside]

/-- A move to the front only reorders the columns. -/
theorem bubbleTimeColumn_perm (config : LogConfiguration) (srcIndex : Nat) :
    (config.bubbleTimeColumn srcIndex).columns.Perm config.columns := by
  unfold bubbleTimeColumn
  -- A column that does not move, or moves to the front.
  split
  · exact List.Perm.refl _
  · unfold moveColumn
    split
    · exact List.Perm.refl _
    · exact moveItem_front_perm config.columns

/-- Moves to the front only reorder the columns. -/
theorem bubbled_perm (config : LogConfiguration) (indices : List Nat) :
    (indices.foldl bubbleTimeColumn config).columns.Perm config.columns := by
  induction indices generalizing config with
  | nil => exact List.Perm.refl _
  | cons srcIndex rest ih => exact (ih _).trans (bubbleTimeColumn_perm config srcIndex)

/-- Moves to the front do not touch a column behind the others. -/
theorem bubbled_push (config : LogConfiguration) {indices : List Nat}
    (inside : ∀ srcIndex ∈ indices, srcIndex < config.columns.length) (column : Column) :
    indices.foldl bubbleTimeColumn
      (config.push column) = (indices.foldl bubbleTimeColumn config).push column := by
  -- Column by column; the number of columns stays.
  induction indices generalizing config with
  | nil => rfl
  | cons srcIndex rest ih =>
    have size : (config.bubbleTimeColumn srcIndex).columns.length = config.columns.length :=
      (bubbleTimeColumn_perm config srcIndex).length_eq
    rw [List.foldl_cons, bubbleTimeColumn_push (inside srcIndex List.mem_cons_self),
      List.foldl_cons]
    exact ih _ fun later member => size ▸ inside later (List.mem_cons_of_mem srcIndex member)

end Moves

section Batches

/-- A fresh column is a time column when its key is a timestamp key. -/
theorem freshColumn_time_iff (key : Bytes) :
    (freshColumn key).type = .time ↔ isTimestampKey key = true := by
  unfold freshColumn
  split
  · rename_i time
    exact iff_of_true rfl time
  · rename_i other
    exact iff_of_false ColumnType.noConfusion other

/-- Keys are found in any order of the columns. -/
theorem isKeyInAnyColumn_perm {first second : LogConfiguration}
    (same : first.columns.Perm second.columns)
    (key : Bytes) : first.isKeyInAnyColumn key = second.isKeyInAnyColumn key := by
  unfold isKeyInAnyColumn
  rw [Bool.eq_iff_iff]
  simp only [List.any_eq_true, same.mem_iff]

/-- Appending keys drops no column. -/
theorem length_le_appendKeys (config : LogConfiguration) (newKeys : List Bytes) :
    config.columns.length ≤ (config.appendKeys newKeys).columns.length := by
  obtain ⟨added, -, -, columns⟩ := config.appendKeys_columns newKeys
  rw [columns, List.length_append]
  exact Nat.le_add_right _ _

/-- A further column adds its index to those of the new time columns, if it is one. -/
theorem newTimeColumns_push (config : LogConfiguration) {oldColumnCount : Nat}
    (behind : oldColumnCount ≤ config.columns.length) (key : Bytes) :
    (config.push (freshColumn key)).newTimeColumns oldColumnCount (config.columns.length + 1) =
      config.newTimeColumns oldColumnCount config.columns.length ++
        if isTimestampKey key then [config.columns.length] else [] := by
  -- The new column is the last of the range.
  have range : List.range' oldColumnCount (config.columns.length + 1 - oldColumnCount) =
      List.range' oldColumnCount (config.columns.length - oldColumnCount) ++
        [config.columns.length] := by
    have size : config.columns.length + 1 - oldColumnCount = config.columns.length -
        oldColumnCount + 1 := by omega
    have last : oldColumnCount + (config.columns.length - oldColumnCount) =
        config.columns.length := by omega
    rw [size, List.range'_concat, Nat.one_mul, last]
  -- The columns before it are looked up as before.
  have early : ∀ columnIndex ∈ List.range' oldColumnCount (config.columns.length - oldColumnCount),
      ((config.push (freshColumn key)).columns[columnIndex]?.map (·.type) = some ColumnType.time) =
        (config.columns[columnIndex]?.map (·.type) = some .time) := by
    intro columnIndex member
    have inside : columnIndex < config.columns.length := by
      have bounds := List.mem_range'_1.mp member
      omega
    rw [push, List.getElem?_append_left inside]
  unfold newTimeColumns
  rw [range, List.filter_append]
  congr 1
  · exact List.filter_congr fun columnIndex member => by simp only [early columnIndex member]
  · -- The last one is a time column just if its key is a timestamp key.
    have held : (config.push (freshColumn key)).columns[config.columns.length]? =
        some (freshColumn key) := by
      simp [push]
    have asked : (decide ((config.push (freshColumn key)).columns[config.columns.length]?.map
      (·.type) = some .time)) =
        isTimestampKey key := by
      rw [held, Option.map_some, Bool.eq_iff_iff, decide_eq_true_iff, Option.some_inj]
      exact freshColumn_time_iff key
    rw [List.filter_singleton, asked]
    cases isTimestampKey key <;> rfl

/-- A fresh time column moves to the front as it is added. -/
theorem updateKey_of_hidden {config : LogConfiguration} {key : Bytes}
    (hidden : config.isKeyInAnyColumn key = false) :
    config.updateKey key =
      (if isTimestampKey key then [config.columns.length] else []).foldl bubbleTimeColumn
        (config.push (freshColumn key)) := by
  have size : (config.push (freshColumn key)).columns.length = config.columns.length + 1 := by
    simp [push]
  have last : config.columns.length + 1 - 1 = config.columns.length := Nat.add_sub_cancel _ _
  unfold updateKey
  simp only [hidden, Bool.false_eq_true, if_false, size, last]
  cases isTimestampKey key with
  | false => rfl
  | true =>
    simp only [Bool.true_and, decide_eq_true_eq, if_true, List.foldl_cons, List.foldl_nil,
      bubbleTimeColumn]
    -- Alone means that it is in front already.
    by_cases alone : config.columns.length = 0
    · rw [if_pos alone, if_neg (by omega)]
    · rw [if_neg alone, if_pos (by omega)]

/-- A batch of keys and one key more. -/
theorem streamKeys_concat (config : LogConfiguration) (newKeys : List Bytes) (key : Bytes) :
    config.streamKeys (newKeys ++ [key]) = (config.streamKeys newKeys).updateKey key := by
  let grown := config.appendKeys newKeys
  let indices := grown.newTimeColumns config.columns.length grown.columns.length
  have perm : (config.streamKeys newKeys).columns.Perm grown.columns := bubbled_perm grown indices
  have shown := isKeyInAnyColumn_perm perm key
  have appended : config.appendKeys (newKeys ++ [key]) = grown.appendKey key := List.foldl_concat ..
  have unfolded : config.streamKeys (newKeys ++ [key]) =
      ((grown.appendKey key).newTimeColumns config.columns.length
        (grown.appendKey key).columns.length).foldl
        bubbleTimeColumn (grown.appendKey key) := by
    rw [← appended]
    rfl
  rw [unfolded]
  cases held : grown.isKeyInAnyColumn key with
  | true =>
    -- The key is shown already, and neither side changes.
    have same : grown.appendKey key = grown := by simp [appendKey, held]
    have unchanged : (config.streamKeys newKeys).updateKey key = config.streamKeys newKeys :=
      if_pos (shown.trans held)
    rw [same, unchanged]
    rfl
  | false =>
    have pushed : grown.appendKey key = grown.push (freshColumn key) := by
      simp [appendKey, held, push]
    have size : (grown.push (freshColumn key)).columns.length = grown.columns.length + 1 := by
      simp [push]
    have inside : ∀ srcIndex ∈ indices, srcIndex < grown.columns.length := by
      intro srcIndex member
      have bounds := List.mem_range'_1.mp (List.mem_filter.mp member).1
      have longer : config.columns.length ≤ grown.columns.length :=
        config.length_le_appendKeys newKeys
      omega
    -- The moves of the earlier columns leave the new one behind all others, and then it moves.
    rw [updateKey_of_hidden (shown.trans held), perm.length_eq, pushed, size,
      newTimeColumns_push grown (config.length_le_appendKeys newKeys), List.foldl_append,
      bubbled_push grown inside]
    rfl

/-- A batch of keys does what the keys do one by one. -/
theorem streamKeys_eq_update (config : LogConfiguration) (newKeys : List Bytes) :
    config.streamKeys newKeys = config.update newKeys := by
  -- The induction is on the keys from the last one on.
  induction newKeys using List.reverseRecOn with
  | nil => simp [streamKeys, update, appendKeys, newTimeColumns]
  | append_singleton front key ih =>
    rw [streamKeys_concat, ih]
    exact (List.foldl_concat ..).symm

end Batches

end LogConfiguration

end Loglib
