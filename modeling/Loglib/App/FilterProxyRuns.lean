import Loglib.Basic.Runs
import Loglib.App.FilterSignals

/-! The columns of the filter proxy, and whole runs: after each event it is what a rebuild would
make of it. -/

namespace Loglib

open LogFilterModel

variable {vformat : Bytes → LogValue → Bytes}

section ColumnSignals

/-- A stretch of columns that stay together. -/
def stretch (first count : Nat) : List (Option Nat) := (List.range' first count).map some

/-- What each column was before columns were inserted at `first..last`. -/
def columnsAfterInsert (columnCount first last : Nat) : List (Option Nat) :=
  stretch 0 first ++ List.replicate (last - first + 1) none ++ stretch first (columnCount - first)

/-- What each column was before the columns `first..last` were removed. -/
def columnsAfterRemove (columnCount first last : Nat) : List (Option Nat) :=
  stretch 0 first ++ stretch (last + 1) (columnCount - (last + 1))

/-- What each column was before the columns `fromColumn..toLast` were moved in front of
`destColumn`. -/
def columnsAfterMove (columnCount fromColumn toLast destColumn : Nat) : List (Option Nat) :=
  let moved := stretch fromColumn (toLast - fromColumn + 1)
  if destColumn < fromColumn then
    stretch 0 destColumn ++ moved ++ stretch destColumn (fromColumn - destColumn) ++
      stretch (toLast + 1) (columnCount - (toLast + 1))
  else
    stretch 0 fromColumn ++ stretch (toLast + 1) (destColumn - (toLast + 1)) ++ moved ++
      stretch destColumn (columnCount - destColumn)

/-- The column's new place among the columns. A place outside the columns stays outside. -/
def Tracks (columnCount : Nat) (columns : List (Option Nat)) (was column : Nat) : Prop :=
  columns[column]? = some (some was) ∨ (columnCount ≤ was ∧ columns.length ≤ column)

/-- A stretch has as many columns as it says. -/
@[simp] theorem length_stretch (first count : Nat) : (stretch first count).length = count := by
  simp [stretch]

/-- A column of a stretch. -/
theorem stretch_getElem? {first count position : Nat} (inside : position < count) :
    (stretch first count)[position]? = some (some (first + position)) := by
  simp [stretch, inside]

/-- Inserted columns push the columns from their place to the right. -/
theorem tracks_insert {columnCount first last : Nat} (inside : first ≤ columnCount) (was : Nat) :
    Tracks columnCount (columnsAfterInsert columnCount first last) was
      (if first ≤ was then was + (last - first + 1) else was) := by
  unfold Tracks columnsAfterInsert
  -- Columns in front of the new ones stay, the others move up.
  by_cases known : was < columnCount
  · left
    split
    · rw [List.getElem?_append_right (by simp; omega), stretch_getElem? (by simp; omega)]
      simp
      omega
    · rw [List.append_assoc, List.getElem?_append_left (by simp; omega),
        stretch_getElem? (by omega), zero_add]
  · right
    refine ⟨not_lt.mp known, ?_⟩
    simp
    split <;> omega

/-- Columns that were there already push nothing but a place outside the columns. -/
theorem tracks_inserted {columnCount first was : Nat} (before : was < first ∨ columnCount ≤ was)
    (count : Nat) :
    Tracks columnCount (stretch 0 columnCount) was (if first ≤ was then was + count else was) := by
  unfold Tracks
  rw [length_stretch]
  -- A column that was there is found at its place; a number beyond them stays beyond.
  by_cases known : was < columnCount
  · left
    rw [if_neg (by omega), stretch_getElem? known, Nat.zero_add]
  · right
    exact ⟨by omega, by split <;> omega⟩

/-- Removed columns let the columns behind them fall back. -/
theorem tracks_remove {columnCount first last was : Nat} (ordered : first ≤ last)
    (inside : last < columnCount)
    (stays : ¬(first ≤ was ∧ was ≤ last)) :
    Tracks columnCount (columnsAfterRemove columnCount first last) was
      (if last < was then was - (last - first + 1) else was) := by
  unfold Tracks columnsAfterRemove
  -- Columns behind the removed ones move down, those in front stay.
  by_cases known : was < columnCount
  · left
    split
    · rw [List.getElem?_append_right (by simp; omega), stretch_getElem? (by simp; omega)]
      simp
      omega
    · rw [List.getElem?_append_left (by simp; omega), stretch_getElem? (by omega), zero_add]
  · right
    refine ⟨not_lt.mp known, ?_⟩
    simp
    split <;> omega

/-- A move takes the sort column along, whether it is among the moved columns or gives way
to them. -/
theorem tracks_move {columnCount fromColumn toLast destColumn : Nat} (ordered : fromColumn ≤ toLast)
    (inside : toLast < columnCount) (target : destColumn ≤ columnCount)
    (elsewhere : ¬(fromColumn ≤ destColumn ∧ destColumn ≤ toLast + 1)) (was : Nat) :
    Tracks columnCount (columnsAfterMove columnCount fromColumn toLast destColumn) was
      (movedSortColumn fromColumn toLast destColumn was) := by
  unfold columnsAfterMove movedSortColumn
  dsimp only
  split
  · -- To the left: the columns from the target up to the moved ones give way.
    by_cases known : was < columnCount
    · left
      split
      · rw [if_neg (by omega), List.append_assoc, List.getElem?_append_left (by simp; omega),
          List.getElem?_append_right (by simp), stretch_getElem? (by simp; omega)]
        simp
        omega
      · rw [if_neg (by omega)]
        split
        · rw [List.getElem?_append_left (by simp; omega),
            List.getElem?_append_right (by simp; omega),
            stretch_getElem? (by simp; omega)]
          simp
          omega
        · by_cases behind : toLast < was
          · rw [List.getElem?_append_right (by simp; omega), stretch_getElem? (by simp; omega)]
            simp
            omega
          · rw [List.append_assoc, List.append_assoc, List.getElem?_append_left (by simp; omega),
              stretch_getElem? (by omega), zero_add]
    · right
      refine ⟨not_lt.mp known, ?_⟩
      simp
      split_ifs <;> omega
  · -- To the right: the columns behind the moved ones up to the target fall back.
    by_cases known : was < columnCount
    · left
      split
      · rw [if_pos (by omega), List.getElem?_append_left (by simp; omega),
          List.getElem?_append_right (by simp; omega),
          stretch_getElem? (by simp; omega)]
        simp
        omega
      · split
        · rw [List.append_assoc, List.getElem?_append_left (by simp; omega),
            List.getElem?_append_right (by simp; omega),
            stretch_getElem? (by simp; omega)]
          simp
          omega
        · rw [if_neg (by omega)]
          by_cases behind : toLast < was
          · rw [List.getElem?_append_right (by simp; omega), stretch_getElem? (by simp; omega)]
            simp
            omega
          · rw [List.append_assoc, List.append_assoc, List.getElem?_append_left (by simp; omega),
              stretch_getElem? (by omega), zero_add]
    · right
      refine ⟨not_lt.mp known, ?_⟩
      simp
      split_ifs <;> omega

variable (vformat) in
/-- The rows stay, their verdicts too, and each column shows at its new place what it
showed before. -/
structure LogFilterModel.KeepsColumns (model : LogFilterModel) (source : SourceModel)
    (columns : List (Option Nat)) : Prop where
  sameRows : source.rowCount = model.source.rowCount
  counted : source.table.columnCount = columns.length
  accepts : ∀ row < model.source.rowCount,
    source.accepts vformat model.compiledExpression row =
      model.source.accepts vformat model.compiledExpression row
  compares : ∀ column was : Nat, columns[column]? = some (some was) →
    ∀ a ∈ model.acceptedSourceRows, ∀ b ∈ model.acceptedSourceRows,
      source.compareSourceRows vformat column a b = model.source.compareSourceRows vformat was a b

/-- Following the sort column to its new place keeps the proxy exact, and losing it does
if the rows ascend. -/
theorem LogFilterModel.KeepsColumns.exact {model : LogFilterModel} (exact_ : model.Exact vformat)
    {source : SourceModel}
    {columns : List (Option Nat)} (keeps : model.KeepsColumns vformat source columns)
    {sortColumn : Option Nat}
    (tracked : ∀ column, sortColumn = some column →
      ∃ was, model.sortColumn = some was ∧ Tracks model.source.table.columnCount columns was column)
    (unsorted : sortColumn = none → model.acceptedSourceRows.Pairwise (· < ·)) :
    ({ model with source, sortColumn } : LogFilterModel).Exact vformat := by
  refine ⟨?_, exact_.once, ?_, exact_.sized.trans keeps.sameRows.symm, exact_.inverse⟩
  · intro row
    show _ ↔ row < source.rowCount ∧ source.accepts vformat model.compiledExpression row = true
    rw [exact_.accepted row, keeps.sameRows]
    exact and_congr_right fun known => by rw [keeps.accepts row known]
  · show model.acceptedSourceRows.Pairwise (source.PlacedBefore vformat sortColumn model.sortOrder)
    cases sortColumn with
    | none => exact unsorted rfl
    | some column =>
      obtain ⟨was, sorted, tracks⟩ := tracked column rfl
      have ordered := exact_.ordered
      rw [sorted] at ordered
      refine ordered.imp_of_mem ?_
      intro a b inA inB before
      -- At a place outside the columns all rows tie, before and after.
      have same : source.compareSourceRows vformat column a b =
          model.source.compareSourceRows vformat was a b := by
        rcases tracks with held | ⟨outside, stillOutside⟩
        · exact keeps.compares column was held a inA b inB
        · rw [SourceModel.compareSourceRows_of_le outside,
            SourceModel.compareSourceRows_of_le (keeps.counted ▸ stillOutside)]
      unfold SourceModel.PlacedBefore ComesBefore at before ⊢
      dsimp only at before ⊢
      rwa [same]

end ColumnSignals

section Runs

variable (vformat)

/-- Rebuilding settles the order: no two accepted rows are misplaced by the ranks that the
bulk sort uses. -/
def LogFilterModel.Rebuilds (model : LogFilterModel) (source : SourceModel)
    (filter : CompiledFilter) : Prop :=
  source.RanksSettle ((List.range source.rowCount).filter (source.accepts vformat filter))
    model.sortColumn model.sortOrder

/-- A filter is installed without a rebuild between two filters that match everything, and
else rebuilt. -/
def LogFilterModel.Installs (model : LogFilterModel) (filter : CompiledFilter) : Prop :=
  (model.compiledExpression.node.isMatchAllCompiled = true ∧
    filter.node.isMatchAllCompiled = true) ∨
    model.Rebuilds vformat model.source filter

/-- An event that the proxy follows exactly.

The signals of the source promise what they are about: rows that are not inserted or removed, cells
outside the changed columns and columns at their new places stay what they are. A batch of rows with
new columns announces the rows first, on a source that has the columns by then. Beyond that, a
change of data in columns that the filter does not ask about leaves the order by the sort column
alone, the filter's columns stay where they are, the sort column is only removed while the rows
ascend, and a sort starts from rows whose ties on the new column ascend. -/
def LogFilterModel.Clean (model : LogFilterModel) : FilterEvent → Prop
  | .rowsInserted source first insertedCount =>
    first ≤ model.source.rowCount ∧ source.rowCount = model.source.rowCount + insertedCount ∧
      model.KeepsRows vformat source (fun _ => True) (placeAfterInsert first insertedCount)
  | .rowsRemoved source first removedCount =>
    first + removedCount ≤ model.source.rowCount ∧
      source.rowCount + removedCount = model.source.rowCount ∧
      model.KeepsRows vformat source (fun row => ¬InRange first removedCount row)
        (placeAfterRemove first removedCount)
  | .dataChanged source firstColumn lastColumn _ =>
    source.logRows = model.source.logRows ∧
      (∀ column, ¬(firstColumn ≤ column ∧ column ≤ lastColumn) →
        model.source.table.KeepsCells vformat source.table column) ∧
      if model.compiledExpression.targets firstColumn lastColumn then model.Rebuilds vformat source
        model.compiledExpression
      else ∀ column, model.sortColumn = some column →
        ∀ a ∈ model.acceptedSourceRows, ∀ b ∈ model.acceptedSourceRows,
          source.compareSourceRows vformat column a b =
            model.source.compareSourceRows vformat column a b
  | .columnsInserted source first last =>
    (first ≤ model.source.table.columnCount ∧
        model.KeepsColumns vformat source
          (columnsAfterInsert model.source.table.columnCount first last)) ∨
      -- The rows of the same batch have brought the columns already.
      model.KeepsColumns vformat source (stretch 0 model.source.table.columnCount) ∧
        ∀ column, model.sortColumn = some column →
          column < first ∨ model.source.table.columnCount ≤ column
  | .columnsRemoved source first last =>
    first ≤ last ∧ last < model.source.table.columnCount ∧
      model.KeepsColumns vformat source
        (columnsAfterRemove model.source.table.columnCount first last) ∧
      ∀ column, model.sortColumn = some column → first ≤ column → column ≤ last →
        model.acceptedSourceRows.Pairwise (· < ·)
  | .columnsMoved source fromColumn toLast destColumn =>
    fromColumn ≤ toLast ∧ toLast < model.source.table.columnCount ∧
      destColumn ≤ model.source.table.columnCount ∧
      ¬(fromColumn ≤ destColumn ∧ destColumn ≤ toLast + 1) ∧
      model.KeepsColumns vformat source
        (columnsAfterMove model.source.table.columnCount fromColumn toLast destColumn)
  | .layoutChanged source _ => model.Rebuilds vformat source model.compiledExpression
  | .modelReset source _ => model.Rebuilds vformat source model.compiledExpression
  | .sort none _ => True
  | .sort (some column) order =>
    model.source.TiesAscend vformat model.acceptedSourceRows (some column) ∧
      model.source.RanksSettle model.acceptedSourceRows (some column) order
  | .setFilterExpression expression _ => model.Installs vformat expression
  | .setFilterRules rules _ => model.Installs vformat (.ofRules rules)

variable {vformat} {model : LogFilterModel}

/-- The rows ascend while there is no sort. -/
theorem LogFilterModel.Exact.ascends (exact_ : model.Exact vformat)
    (unsorted : model.sortColumn = none) :
    model.acceptedSourceRows.Pairwise (· < ·) := by
  have ordered := exact_.ordered
  rwa [unsorted] at ordered

/-- A sort from rows whose ties ascend keeps the proxy exact, and so does giving up the sort. -/
theorem LogFilterModel.sort_exact (exact_ : model.Exact vformat) {column : Option Nat}
    {order : SortOrder}
    (clean : model.Clean vformat (.sort column order)) :
    (model.sort vformat column order).Exact vformat := by
  cases column with
  -- Unsorting puts the accepted rows back into the order of the source.
  | none =>
    rw [LogFilterModel.sort]
    split
    · exact exact_
    · apply rebuildReverseIndex_exact
      · intro row
        exact List.mem_insertionSort (· ≤ ·) |>.trans (exact_.accepted row)
      · have sorted := List.pairwise_insertionSort (· ≤ ·) model.acceptedSourceRows
        have once := (List.perm_insertionSort (· ≤ ·) model.acceptedSourceRows).nodup_iff.mpr
          exact_.once
        exact (sorted.and once).imp fun both => lt_of_le_of_ne both.1 both.2
  -- Sorting permutes the accepted rows, so they stay the same rows.
  | some column =>
    obtain ⟨rows, applied, perm, placed⟩ := @applySortPermutation_sorted vformat
      { model with sortColumn := some column, sortOrder := order }
      (fun row listed => ((exact_.accepted row).mp listed).1) (fun none_ =>
        absurd none_ (Option.some_ne_none column))
      clean.1 clean.2
    rw [LogFilterModel.sort, applied]
    exact rebuildReverseIndex_exact (fun row => perm.mem_iff.trans (exact_.accepted row)) placed

/-- Installing a filter keeps the proxy exact. -/
theorem LogFilterModel.setFilterExpression_exact (schedules : FilterSchedules)
    (exact_ : model.Exact vformat)
    {expression : CompiledFilter} (installs : model.Installs vformat expression) :
    (model.setFilterExpression vformat schedules expression).Exact vformat := by
  unfold setFilterExpression
  split
  · -- Both filters accept every row.
    rename_i both
    rw [Bool.and_eq_true] at both
    refine ⟨?_, exact_.once, exact_.ordered, exact_.sized, exact_.inverse⟩
    intro row
    refine (exact_.accepted row).trans (and_congr_right fun known => ?_)
    rw [SourceModel.accepts_of_matchAll both.1 known]
    exact iff_of_true rfl (SourceModel.accepts_of_matchAll both.2 known)
  · rename_i rebuilt
    rcases installs with both | rebuilds
    · rw [both.1, both.2] at rebuilt
      exact absurd rfl rebuilt
    · exact rebuildAcceptedRows_exact schedules rebuilds

/-- The proxy stays exact through an event that it follows. -/
theorem LogFilterModel.step_exact (exact_ : model.Exact vformat) {event : FilterEvent}
    (clean : model.Clean vformat event) :
    (model.step vformat event).Exact vformat := by
  cases event with
  -- Rows come and go: the condition is that of the block that moves.
  | rowsInserted source first insertedCount =>
    exact onSourceRowsInserted_exact exact_ clean.1 clean.2.1 clean.2.2
  | rowsRemoved source first removedCount =>
    exact onSourceRowsRemoved_exact exact_ clean.1 clean.2.1 clean.2.2
  -- Changed cells: an expression that looks at them, or the order, is built anew.
  | dataChanged source firstColumn lastColumn schedules =>
    obtain ⟨sameRows, cells, settled⟩ := clean
    refine onSourceDataChanged_exact schedules exact_ sameRows cells ?_ ?_
    · intro targeted
      rwa [if_pos targeted] at settled
    · intro untouched
      rwa [untouched, if_neg Bool.false_ne_true] at settled
  -- The sort column is followed to its new place, in front of the new columns or behind them.
  | columnsInserted source first last =>
    have unsorted (none_ : (onSourceColumnsInserted { model with source } first last).sortColumn =
      none) :
        model.acceptedSourceRows.Pairwise (· < ·) :=
          exact_.ascends (Option.map_eq_none_iff.mp none_)
    rcases clean with ⟨inside, keeps⟩ | ⟨keeps, apart⟩
    · refine keeps.exact exact_ (fun column moved => ?_) unsorted
      obtain ⟨was, sorted, rfl⟩ := Option.map_eq_some_iff.mp moved
      exact ⟨was, sorted, tracks_insert inside was⟩
    · refine keeps.exact exact_ (fun column moved => ?_) unsorted
      obtain ⟨was, sorted, rfl⟩ := Option.map_eq_some_iff.mp moved
      exact ⟨was, sorted, tracks_inserted (apart was sorted) _⟩
  -- A removed sort column leaves the rows unsorted, so they have to be in order already.
  | columnsRemoved source first last =>
    obtain ⟨ordered, inside, keeps, given⟩ := clean
    apply keeps.exact exact_
    · intro column moved
      obtain ⟨was, sorted, placed⟩ := Option.bind_eq_some_iff.mp moved
      refine ⟨was, sorted, ?_⟩
      split at placed
      · exact absurd placed.symm (Option.some_ne_none column)
      · rename_i stays
        have tracks := tracks_remove ordered inside stays
        split at placed <;> rename_i side
        · rw [if_pos side] at tracks
          rwa [← Option.some.inj placed]
        · rw [if_neg side] at tracks
          rwa [← Option.some.inj placed]
    · intro none_
      cases sorted : model.sortColumn with
      | none => exact exact_.ascends sorted
      | some column =>
        change model.sortColumn.bind _ = none at none_
        rw [sorted, Option.bind_some] at none_
        split at none_
        · rename_i removed
          exact given column sorted removed.1 removed.2
        · -- A column that stays is still the one that is sorted by.
          split at none_ <;> exact absurd none_ (Option.some_ne_none _)
  -- The moved block takes the sort column along, or passes it.
  | columnsMoved source fromColumn toLast destColumn =>
    obtain ⟨ordered, inside, target, elsewhere, keeps⟩ := clean
    rw [step, onSourceColumnsMoved, if_neg elsewhere]
    apply keeps.exact exact_
    · intro column moved
      obtain ⟨was, sorted, rfl⟩ := Option.map_eq_some_iff.mp moved
      exact ⟨was, sorted, tracks_move ordered inside target elsewhere was⟩
    · intro none_
      exact exact_.ascends (Option.map_eq_none_iff.mp none_)
  -- Everything is built anew.
  | layoutChanged source schedules => exact rebuildAcceptedRows_exact schedules clean
  | modelReset source schedules => exact rebuildAcceptedRows_exact schedules clean
  | sort column order => exact sort_exact exact_ clean
  | setFilterExpression expression schedules =>
    exact setFilterExpression_exact schedules exact_ clean
  | setFilterRules rules schedules => exact setFilterExpression_exact schedules exact_ clean

/-- A proxy on a new source is exact. -/
theorem LogFilterModel.ofSource_exact (vformat : Bytes → LogValue → Bytes) (source : SourceModel) :
    (LogFilterModel.ofSource source).Exact vformat := by
  -- A fresh proxy accepts all rows, in source order.
  apply rebuildReverseIndex_exact
  · intro row
    show row ∈ List.range source.rowCount ↔
      row < source.rowCount ∧ source.accepts vformat .matchAll row = true
    rw [List.mem_range, iff_self_and]
    exact SourceModel.accepts_of_matchAll rfl
  · exact List.pairwise_lt_range

/-- In a run of events that the proxy follows exactly, it is what a rebuild would make of it after
each event. -/
theorem LogFilterModel.run_exact (vformat : Bytes → LogValue → Bytes) (source : SourceModel)
    (events : List FilterEvent)
    (clean : FollowedRun (step vformat) (Clean vformat) (LogFilterModel.ofSource source) events)
    (steps : Nat) :
    ((LogFilterModel.ofSource source).run vformat (events.take steps)).Exact vformat :=
  (clean.take steps).invariant (fun _ _ exact_ follows => step_exact exact_ follows)
    (ofSource_exact vformat source)

section Resorted

/-- Two columns of texts, `k` and `m`. -/
def twoTextColumns : LogConfiguration :=
  ⟨[{ header := bytes "k", keys := [bytes "k"], printFormat := defaultPrintFormat,
      type := .string, parseFormats := [], levelMapping := [], autoDetect := false },
    { header := bytes "m", keys := [bytes "m"], printFormat := defaultPrintFormat,
      type := .string, parseFormats := [], levelMapping := [], autoDetect := false }], ⟨-1, false⟩⟩

/-- Two rows of a file, `k = "x"` and `k = "y"`, both without `m`. -/
def twoRows : LogTable :=
  (LogTable.run (fun _ _ => none) (.initial twoTextColumns)
    [.beginStreaming (some (.file (.ofData (bytes "x\ny\n")))),
      .appendBatch ⟨[.ofField 0 0 0 (.mmapSlice 0 1), .ofField 0 1 0 (.mmapSlice 2 1)], [2, 4],
      [bytes "k"], []⟩]).getD
    (.initial twoTextColumns)

/-- A sort of texts has no ranks to settle. -/
theorem twoRows_settle (rows : List Nat) (sortColumn : Option Nat) (order : SortOrder) :
    (SourceModel.ofTable twoRows).RanksSettle rows sortColumn order := by
  rintro column - ⟨shown, -, inside, enumeration, -⟩
  have texts : ∀ shown ∈ twoRows.columns, shown.type = .string := by decide
  rw [texts shown (List.mem_of_getElem? inside)] at enumeration
  contradiction

/-- A descending sort of the two rows, taken back afterwards. -/
theorem twoRows_sorted_exact :
    ((ofSource (.ofTable twoRows)).run (fun _ _ =>
      []) ([.sort (some 0) .descending, .sort none .ascending].take 1)).Exact
      fun _ _ => [] := by
  -- In the only sort that is run, equal rows are in source order.
  have ties : (SourceModel.ofTable twoRows).TiesAscend (fun _ _ => [])
      (ofSource (.ofTable twoRows)).acceptedSourceRows (some 0) := by
    intro column _
    refine (List.pairwise_lt_range).imp ?_
    intro a b before _
    exact before
  have clean : FollowedRun (LogFilterModel.step fun _ _ => []) (LogFilterModel.Clean fun _ _ =>
    []) (ofSource (.ofTable twoRows))
      [.sort (some 0) .descending, .sort none .ascending] :=
        ⟨⟨ties, twoRows_settle _ _ _⟩, trivial, trivial⟩
  exact run_exact _ _ _ clean 1

/-- After a descending sort by `k`, the sort by `m` keeps the second row first, although
the rows tie. -/
theorem resorted_notExact :
    ¬∀ (vformat : Bytes → LogValue → Bytes) (source : SourceModel)
      (sorts : List (Option Nat × SortOrder)),
      ((ofSource source).run vformat (sorts.map fun asked => .sort asked.1 asked.2)).Exact
        vformat := by
  intro claim
  have ordered := (claim (fun _ _ => []) (.ofTable twoRows) [(some 0, .descending),
    (some 1, .ascending)]).ordered
  -- The second sort keeps the order that the first one has left.
  have rows : ((ofSource (.ofTable twoRows)).run (fun _ _ => []) ([(some 0, SortOrder.descending),
      (some 1, SortOrder.ascending)].map fun asked => .sort asked.1 asked.2)).acceptedSourceRows =
        [1, 0] := by decide
  rw [rows] at ordered
  have placed : (SourceModel.ofTable twoRows).PlacedBefore (fun _ _ =>
      []) (some 1) .ascending 1 0 :=
    (List.pairwise_cons.mp ordered).1 0 (List.mem_singleton.mpr rfl)
  have tied : ¬ComesBefore true ((SourceModel.ofTable twoRows).compareSourceRows (fun _ _ => []) 1)
      1 0 := by decide
  exact tied placed

end Resorted

end Runs

end Loglib
