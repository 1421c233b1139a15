import Loglib.Basic.Runs
import Loglib.Table.EnumSteps
import Loglib.Table.Operations

/-! Predicting an append: the counts that the view announces before the batch is spliced in. -/

namespace Loglib

namespace LogConfiguration

/-- One step of `CountAppendableKeys`: the keys counted so far, and the next key of the input. -/
def countAppendableKey (config : LogConfiguration) (alreadyCounted : List Bytes) (key : Bytes) :
    List Bytes :=
  if config.isKeyInAnyColumn key then alreadyCounted
  else if alreadyCounted.contains key then alreadyCounted
  else alreadyCounted ++ [key]

/-- `CountAppendableKeys`. -/
def countAppendableKeys (config : LogConfiguration) (newKeys : List Bytes) : Nat :=
  (newKeys.foldl config.countAppendableKey []).length

/-- While `AppendKeys` adds a column for each key, the counter holds the keys of those columns. -/
theorem appendKeys_eq_counted (config : LogConfiguration) (newKeys : List Bytes) :
    (config.appendKeys newKeys).columns =
      config.columns ++ (newKeys.foldl config.countAppendableKey []).map freshColumn := by
  -- The induction is on the keys, over any columns and any counted keys that match them.
  have walk : ∀ (grown : LogConfiguration) (counted : List Bytes),
      grown.columns = config.columns ++ counted.map freshColumn →
      (grown.appendKeys newKeys).columns =
        config.columns ++ (newKeys.foldl config.countAppendableKey counted).map freshColumn := by
    induction newKeys with
    | nil => exact fun grown counted same => same
    | cons key rest ih =>
      intro grown counted same
      -- A column of the grown list shows the key if an old one does, or if it was counted.
      have shown : grown.isKeyInAnyColumn key =
          (config.isKeyInAnyColumn key || counted.contains key) := by
        have fresh : (counted.map freshColumn).any (fun column => column.keys.contains key) =
            counted.contains key := by
          rw [List.any_map, Bool.eq_iff_iff]
          simp
        simp only [isKeyInAnyColumn, same, List.any_append, fresh]
      refine ih (grown.appendKey key) (config.countAppendableKey counted key) ?_
      unfold appendKey countAppendableKey
      rw [shown]
      cases old : config.isKeyInAnyColumn key
      · cases held : counted.contains key
        · simp [same]
        · simpa using same
      · simpa using same
  exact walk config [] (by simp)

end LogConfiguration

namespace LogTable

/-- The counts after a batch. -/
structure AppendBatchPreview where
  newRowCount : Nat
  newColumnCount : Nat
deriving DecidableEq, Repr

/-- `PreviewAppend`. -/
def previewAppend (table : LogTable) (batch : StreamedBatch) : AppendBatchPreview where
  newRowCount := table.lines.length + batch.lines.length
  newColumnCount := table.columns.length + table.configuration.countAppendableKeys batch.newKeys

section Counts

/-- The second table has as many rows and columns as the first. -/
structure SameCounts (old new : LogTable) : Prop where
  rows : new.lines.length = old.lines.length
  columns : new.columns.length = old.columns.length

/-- A table has its own counts. -/
@[refl] theorem SameCounts.refl (table : LogTable) : SameCounts table table := ⟨rfl, rfl⟩

/-- Equal counts compose. -/
theorem SameCounts.trans {first second third : LogTable} (left : SameCounts first second)
    (right : SameCounts second third) : SameCounts first third :=
  ⟨right.rows.trans left.rows, right.columns.trans left.columns⟩

/-- Editing a column adds none. -/
theorem sameCounts_modifyColumn (table : LogTable) (columnIndex : Nat) (edit : Column → Column) :
    SameCounts table
      { table with configuration := table.configuration.modifyColumn columnIndex edit } :=
  ⟨rfl, List.length_modify edit table.columns columnIndex⟩

/-- Encoding rewrites rows in place. -/
theorem length_encodeRows (sources : List LineSource) (maxLen : Nat) (aliasKeys : List KeyId)
    (dict : EnumDictionary) (health : EnumColumnHealth) (lines : List LogLine) :
    (encodeRows sources maxLen aliasKeys dict health lines).lines.length = lines.length := by
  induction lines generalizing dict health with
  | nil => rfl
  | cons line rest ih =>
    -- A row that is turned away ends the pass, and the rest stay.
    unfold encodeRows
    split
    · rfl
    · simp [ih]

/-- Encoding a range keeps the counts. -/
theorem sameCounts_encodeColumnRange (table : LogTable) (aliasKeys : List KeyId) (rowBegin : Nat)
    (healthKey : KeyId) :
    SameCounts table (table.encodeColumnRange aliasKeys rowBegin healthKey).1 := by
  cases aliasKeys with
  | nil => exact .refl table
  | cons canonical aliases =>
    refine ⟨?_, rfl⟩
    simp only [encodeColumnRange, List.length_append, List.length_take, length_encodeRows,
      List.length_drop]
    omega

/-- Turning slots back rewrites rows in place. -/
theorem length_demoteLines {dict : Option EnumDictionary} {keyIds : List KeyId}
    {sources grown : List LineSource} {lines later : List LogLine}
    (done : demoteLines dict keyIds sources lines = some (grown, later)) :
    later.length = lines.length := by
  -- A line that cannot be demoted ends the walk without a result.
  induction lines generalizing sources grown later with
  | nil =>
    simp only [demoteLines, Option.some.injEq, Prod.mk.injEq] at done
    rw [← done.2]
  | cons line rest ih =>
    simp only [demoteLines] at done
    split at done
    · contradiction
    · split at done
      · contradiction
      · rename_i others
        simp only [Option.some.injEq, Prod.mk.injEq] at done
        rw [← done.2, List.length_cons, List.length_cons, ih others]

/-- A demotion keeps the counts. -/
theorem sameCounts_demoteColumnFromEnum {table next : LogTable} {columnIndex : Nat}
    {recordForBatch : Bool}
    (done : table.demoteColumnFromEnum columnIndex recordForBatch = some next) :
    SameCounts table next := by
  -- A demotion changes types and texts, and keeps their number.
  have typed := table.sameCounts_modifyColumn columnIndex fun column =>
    { column with type := .string }
  rcases demoteColumnFromEnum_cases done with ⟨same, -⟩ | ⟨column, -, -, retyped⟩
  · rw [same]
  · rcases retyped with ⟨-, same⟩ | ⟨canonical, aliases, sources, lines, -, demoted, same⟩
    · rw [same]
      exact typed
    · rw [same]
      exact ⟨length_demoteLines demoted, typed.columns⟩

/-- Ranking levels keeps the counts. -/
theorem sameCounts_refreshLevelRankCache (table : LogTable) (columnIndex : Nat) :
    SameCounts table (table.refreshLevelRankCache columnIndex) := by
  unfold refreshLevelRankCache
  repeat' split
  all_goals exact ⟨rfl, rfl⟩

/-- Promotion to a level column keeps the counts. -/
theorem sameCounts_maybePromoteToLevel (table : LogTable) (columnIndex : Nat) :
    SameCounts table (table.maybePromoteToLevel columnIndex) := by
  rcases table.maybePromoteToLevel_cases columnIndex with same | ⟨_, canonical, -, -, -, -, -, same⟩
  · rw [same]
  · rw [same]
    have ranked := (table.sameCounts_modifyColumn columnIndex fun column =>
      { column with type := .level }).trans (sameCounts_refreshLevelRankCache _ columnIndex)
    exact ⟨ranked.rows, ranked.columns⟩

/-- Wiring keys keeps the counts. -/
theorem sameCounts_wireColumnKeys (table : LogTable) (names : List Bytes) :
    SameCounts table (table.wireColumnKeys names).1 := by
  cases names with
  | nil => exact .refl table
  | cons name rest =>
    exact foldl_invariant (fun wired => SameCounts table wired)
      (fun _ _ _ counts => ⟨counts.rows, counts.columns⟩) ⟨rfl, rfl⟩

/-- A piece of the enumeration work keeps the counts. -/
theorem sameCounts_of_step {old new : LogTable} (step : EnumStep old new) : SameCounts old new := by
  cases step with
  -- No step adds or drops a row or a column.
  | retype columnIndex type => exact old.sameCounts_modifyColumn columnIndex _
  | track trackerKey tracker => exact ⟨rfl, rfl⟩
  | wire names => exact old.sameCounts_wireColumnKeys names
  | encode aliasKeys rowBegin healthKey =>
    exact old.sameCounts_encodeColumnRange aliasKeys rowBegin healthKey
  | rank columnIndex => exact old.sameCounts_refreshLevelRankCache columnIndex
  | level columnIndex => exact old.sameCounts_maybePromoteToLevel columnIndex
  | demote columnIndex recordForBatch done => exact sameCounts_demoteColumnFromEnum done

/-- Promoting timestamps rewrites rows in place. -/
theorem sameCounts_backfillColumn (parse : TimestampParser) (oldLineCount : Nat)
    (walk : BackfillWalk) (columnIndex : Nat) (column : Column) :
    SameCounts walk.table (backfillColumn parse oldLineCount walk columnIndex column).table := by
  -- Reading times rewrites lines and adds none.
  have promoted : ∀ (table : LogTable) rowBegin,
      SameCounts table (table.backfillTimestampColumn parse column rowBegin) :=
    fun table rowBegin =>
      ⟨(table.backfillTimestampColumn_promoted parse column rowBegin).length_eq.symm, rfl⟩
  unfold backfillColumn
  split
  · exact .refl _
  · simp only
    split
    · exact .refl _
    · split
      · exact ⟨(promoted walk.table 0).rows, (promoted walk.table 0).columns⟩
      · split
        · exact promoted walk.table oldLineCount
        · exact .refl _

end Counts

/-- The preview of a batch is what the table has after it. -/
theorem previewAppend_predicts (parse : TimestampParser) (table : LogTable)
    (batch : StreamedBatch) :
    ∀ next ∈ table.step parse (.appendBatch batch),
      (table.previewAppend batch).newRowCount = next.rowCount ∧
        (table.previewAppend batch).newColumnCount = next.columnCount := by
  intro next done
  obtain ⟨walk, passed, same⟩ := Option.map_eq_some_iff.mp done
  -- Rows and columns are added before anything else, and the passes only rewrite them.
  have rows : ((table.internKeys batch.newKeys).appendBatchRows parse batch).table.lines.length =
        table.lines.length + batch.lines.length ∧
      ((table.internKeys batch.newKeys).appendBatchRows parse batch).table.columns.length =
        table.columns.length + table.configuration.countAppendableKeys batch.newKeys := by
    unfold appendBatchRows
    refine foldl_invariant (fun (walk : BackfillWalk) =>
      walk.table.lines.length = table.lines.length + batch.lines.length ∧
        walk.table.columns.length =
          table.columns.length + table.configuration.countAppendableKeys batch.newKeys) ?_ ?_
    · rintro walk ⟨column, columnIndex⟩ - ⟨lines, columns⟩
      have counts := sameCounts_backfillColumn parse (table.internKeys batch.newKeys).lines.length
        walk columnIndex column
      exact ⟨counts.rows.trans lines, counts.columns.trans columns⟩
    · have columns := congrArg List.length
        (table.configuration.appendKeys_eq_counted batch.newKeys)
      rw [List.length_append, List.length_map] at columns
      unfold refreshColumnKeyIdsForKeys
      split <;> exact ⟨List.length_append, columns⟩
  have pass : SameCounts ((table.internKeys batch.newKeys).appendBatchRows parse batch).table
      walk.table :=
    (steps_runEnumPass passed).keeps .refl .trans sameCounts_of_step
  subst same
  exact ⟨rows.1.symm.trans pass.rows.symm, rows.2.symm.trans pass.columns.symm⟩

/-- A repeated key and an empty one make two columns, as the preview says. -/
theorem previewAppend_predicts_repeated :
    ∃ next ∈ (initial ⟨[], ⟨-1, false⟩⟩).step (fun _ _ => none)
      (.appendBatch ⟨[], [], [bytes "a", bytes "", bytes "a"], []⟩), next.columnCount = 2 := by
  obtain ⟨next, done⟩ : ∃ next, (initial ⟨[], ⟨-1, false⟩⟩).step (fun _ _ => none)
      (.appendBatch ⟨[], [], [bytes "a", bytes "", bytes "a"], []⟩) = some next := ⟨_, rfl⟩
  have predicted := (previewAppend_predicts _ _ _ next done).2
  exact ⟨next, done, predicted.symm.trans (by decide)⟩

end LogTable

end Loglib
