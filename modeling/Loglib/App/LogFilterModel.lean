import Loglib.Basic.PositionRanges
import Loglib.Compare.SortPermutation
import Loglib.Filter.FilterExpression
import Loglib.Order.LowerBound

/-! The filter proxy of the table view: the source rows it shows, their order, and how it follows
its source. -/

namespace Loglib

section Filters

/-- `RowPredicateColumn`. -/
def RowPredicate.column : RowPredicate → Nat
  | .enum predicate => predicate.columnIndex
  | .timeRange predicate => predicate.columnIndex
  | .numericRange predicate => predicate.columnIndex
  | .bool predicate => predicate.columnIndex
  | .callbackString predicate => predicate.columnIndex

/-- What a predicate says of a row is a matter of the row's cell in its column, and of the cell's
dictionary id where it asks for one. -/
theorem matchesRow_of_cell {vformat : Bytes → LogValue → Bytes} {old new : LogTable}
    {predicate : RowPredicate} {row later : Nat}
    (value : new.getValue later predicate.column = old.getValue row predicate.column)
    (text : new.getValueOrFormatted vformat later predicate.column =
    old.getValueOrFormatted vformat row predicate.column)
    (id : ∀ own, predicate = .enum own →
    new.getEnumValueId later own.columnIndex = old.getEnumValueId row own.columnIndex) :
    matchesRow vformat new later predicate = matchesRow vformat old row predicate := by
  unfold RowPredicate.column at value text
  -- Each kind of predicate reads the value, the text or the id of its own column.
  cases predicate with
  | enum predicate =>
    simp only [matchesRow, EnumRowPredicate.matchesRow, EnumRowPredicate.matchesString, value,
      id predicate rfl]
  | timeRange predicate => simp only [matchesRow, TimeRangeRowPredicate.matchesRow, value]
  | numericRange predicate => simp only [matchesRow, NumericRangeRowPredicate.matchesRow, value]
  | bool predicate => simp only [matchesRow, BoolRowPredicate.matchesRow, value]
  | callbackString predicate => simp only [matchesRow, CallbackStringRowPredicate.matchesRow, text]

/-- A compiled filter: its tree, the predicates of the leaves, and the columns that these
ask about. -/
structure CompiledFilter where
  node : CompiledFilterExpression
  predicates : PredicateAddress → RowPredicate
  referencedColumns : List Nat
  /-- Whoever compiles a filter lists the column of every leaf. -/
  covers : ∀ address ∈ collectLeafsInVisitOrder node,
    (predicates address).column ∈ referencedColumns

namespace CompiledFilter

/-- Some leaf asks about one of the columns. -/
def targets (filter : CompiledFilter) (firstColumn lastColumn : Nat) : Bool :=
  filter.referencedColumns.any fun column => firstColumn ≤ column && column ≤ lastColumn

/-- The default filter, which matches every row. -/
def matchAll : CompiledFilter where
  node := .and []
  predicates _ := .bool ⟨0, true, true⟩
  referencedColumns := []
  covers := fun _ listed => absurd listed List.not_mem_nil

/-- A rule by its address. -/
def ruleAt (rules : List RowPredicate) (address : PredicateAddress) : RowPredicate :=
  rules[address]?.getD (.bool ⟨0, true, true⟩)

/-- The leaves of a flat conjunction are its addresses. -/
theorem collectLeafsOfChildren_leaves (addresses : List PredicateAddress) :
    collectLeafsOfChildren (addresses.map .leaf) = addresses := by
  induction addresses with
  | nil => rfl
  | cons address rest ih => simp [collectLeafsOfChildren, collectLeafsInVisitOrder, ih]

/-- Every rule's column is listed. -/
theorem ofRules_covers (rules : List RowPredicate) :
    ∀ address ∈ collectLeafsInVisitOrder (.and ((List.range rules.length).map .leaf)),
      (ruleAt rules address).column ∈
        ((rules.map RowPredicate.column).insertionSort (· ≤ ·)).dedup := by
  intro address listed
  rw [collectLeafsInVisitOrder, collectLeafsOfChildren_leaves, List.mem_range] at listed
  have held : rules[address]? = some (rules.get ⟨address, listed⟩) :=
    List.getElem?_eq_getElem listed
  rw [List.mem_dedup, List.mem_insertionSort, List.mem_map]
  exact ⟨_, List.mem_of_getElem? held, by rw [ruleAt, held, Option.getD_some]⟩

/-- The conjunction that `SetFilterRules` makes of a list of rules. -/
def ofRules (rules : List RowPredicate) : CompiledFilter where
  node := .and ((List.range rules.length).map .leaf)
  predicates := ruleAt rules
  referencedColumns := ((rules.map RowPredicate.column).insertionSort (· ≤ ·)).dedup
  covers := ofRules_covers rules

end CompiledFilter

/-- How each filtering shares the rows among its workers. -/
abbrev FilterSchedules := (rowCount : Nat) → FilterSchedule rowCount

end Filters

/-- What the proxy stands on: a table, and the log row of each source row under the
proxies in between. -/
structure SourceModel where
  table : LogTable
  logRows : List Nat
  chained : logRows.Perm (List.range table.rowCount)

namespace SourceModel

/-- The table itself, oldest row first. -/
def ofTable (table : LogTable) : SourceModel where
  table := table
  logRows := List.range table.rowCount
  chained := List.Perm.refl _

/-- `RowOrderProxyModel`: the rows in the opposite order. -/
def reversed (source : SourceModel) : SourceModel where
  table := source.table
  logRows := source.logRows.reverse
  chained := (List.reverse_perm _).trans source.chained

/-- Number of source rows. -/
def rowCount (source : SourceModel) : Nat := source.logRows.length

/-- `SourceRowToLogRow`. -/
def sourceRowToLogRow (source : SourceModel) (sourceRow : Nat) : Option Nat :=
  source.logRows[sourceRow]?

/-- `LogRowToSourceRow`. -/
def logRowToSourceRow (source : SourceModel) (logRow : Nat) : Option Nat :=
  if logRow ∈ source.logRows then some (source.logRows.idxOf logRow) else none

/-- `EnumRankFor`. A dictionary keeps the values it has, so a rank that is cached until it grows is
the rank now. -/
def enumRankFor (source : SourceModel) (columnIndex : Nat) : Option EnumDictRank :=
  match source.table.resolveEnumColumn columnIndex with
  | (some _, some dictionary) => some (.ofDictionary dictionary)
  | _ => none

/-- The ranks that a column is compared with. Only enumeration columns have them. -/
def sortRank (source : SourceModel) (columnIndex : Nat) : Option EnumDictRank :=
  match (source.table.columns[columnIndex]?).map (fun column : Column => column.type) with
  | some .enumeration => source.enumRankFor columnIndex
  | _ => none

end SourceModel

/-- The direction of a sort. -/
inductive SortOrder where
  | ascending
  | descending
deriving DecidableEq, Repr

/-- The direction is the ascending one. -/
def SortOrder.isAscending : SortOrder → Bool
  | .ascending => true
  | .descending => false

/-- The proxy's state. Without a sort column the accepted rows are to stay in ascending
source order. -/
structure LogFilterModel where
  source : SourceModel
  compiledExpression : CompiledFilter
  acceptedSourceRows : List Nat
  /-- The proxy row of each source row, `none` for an invisible one. -/
  sourceRowToProxyRow : List (Option Nat)
  sortColumn : Option Nat
  sortOrder : SortOrder

namespace LogFilterModel

/-- The rows' places in the accepted list, by source row. -/
def reverseIndex (rowCount : Nat) (acceptedSourceRows : List Nat) : List (Option Nat) :=
  (acceptedSourceRows.zipIdx.map fun entry => (entry.1, some entry.2)).foldl (fun index entry =>
    index.set entry.1 entry.2)
    (List.replicate rowCount none)

/-- `RebuildReverseIndex`. -/
def rebuildReverseIndex (model : LogFilterModel) : LogFilterModel :=
  { model with sourceRowToProxyRow := reverseIndex model.source.rowCount model.acceptedSourceRows }

/-- `setSourceModel`: all rows in source order, without a filter or a sort. -/
def ofSource (source : SourceModel) : LogFilterModel :=
  rebuildReverseIndex
    { source, compiledExpression := .matchAll, acceptedSourceRows := List.range source.rowCount,
      sourceRowToProxyRow := [],
      sortColumn := none, sortOrder := .ascending }

variable (vformat : Bytes → LogValue → Bytes)

section Ordering

/-- `LessThanSourceRows`: the sort order, with ties in ascending source order. -/
def lessThanSourceRows (model : LogFilterModel) (leftSource rightSource : Nat) : Bool :=
  match model.sortColumn with
  | none => leftSource < rightSource
  | some column =>
    -- A column that is gone sorts nothing.
    if model.source.table.columnCount ≤ column then leftSource < rightSource
    else
      match model.source.sourceRowToLogRow leftSource,
        model.source.sourceRowToLogRow rightSource with
      | some leftLog, some rightLog =>
        let cmp := compareRows vformat model.source.table leftLog rightLog column
          (model.source.sortRank column)
        -- Ties keep the order of the source in either direction.
        if cmp = 0 then leftSource < rightSource
        else
          match model.sortOrder with
          | .ascending => cmp < 0
          | .descending => 0 < cmp
      | _, _ => leftSource < rightSource

/-- `ApplySortPermutation`: sorts the accepted rows from the order that they are in. -/
def applySortPermutation (model : LogFilterModel) : LogFilterModel :=
  match model.sortColumn with
  | none => model
  | some column =>
    -- Up to one row is in order already.
    if model.acceptedSourceRows.length ≤ 1 ∨ model.source.table.columnCount ≤ column then model
    else
      let logRows := model.acceptedSourceRows.map fun row =>
        (model.source.sourceRowToLogRow row).getD 0
      let permutation := sortPermutationByColumn vformat model.source.table logRows column
        model.sortOrder.isAscending
        (model.source.sortRank column)
      { model with
        acceptedSourceRows := permutation.map fun position => model.acceptedSourceRows[position]?.getD 0 }

/-- `sort`. No column reverts to ascending source order. -/
def sort (model : LogFilterModel) (column : Option Nat) (order : SortOrder) : LogFilterModel :=
  match column with
  | none =>
    -- Back to source order.
    if model.sortColumn = none then model
    else
      rebuildReverseIndex
        { model with
          sortColumn := none, sortOrder := order, acceptedSourceRows :=
            model.acceptedSourceRows.insertionSort (· ≤ ·) }
  | some column =>
    rebuildReverseIndex (applySortPermutation vformat
      { model with sortColumn := some column, sortOrder := order })

end Ordering

section Filtering

/-- `MatchesRulesAtSourceRow`. -/
def matchesRulesAtSourceRow (model : LogFilterModel) (sourceRow : Nat) : Bool :=
  if model.compiledExpression.node.isMatchAllCompiled then true
  else
    match model.source.sourceRowToLogRow sourceRow with
    | none => false
    | some row =>
      evaluateExpression vformat model.compiledExpression.predicates model.source.table row
        model.compiledExpression.node

/-- `RecomputeAcceptedRows`: the accepted log rows as source rows, in ascending order. -/
def recomputeAcceptedRows (schedules : FilterSchedules) (model : LogFilterModel) : LogFilterModel :=
  let filter := model.compiledExpression
  if filter.node.isMatchAllCompiled then { model with
    acceptedSourceRows := List.range model.source.rowCount }
  else
    let acceptedLogRows := (filterAcceptedRows vformat filter.predicates model.source.table
      (schedules model.source.table.rowCount) filter.node).getD []
    { model with
      acceptedSourceRows := (acceptedLogRows.filterMap model.source.logRowToSourceRow).insertionSort
        (· ≤ ·) }

/-- `RebuildAcceptedRows`: filter, sort and reverse index from scratch. -/
def rebuildAcceptedRows (schedules : FilterSchedules) (model : LogFilterModel) : LogFilterModel :=
  rebuildReverseIndex (applySortPermutation vformat (recomputeAcceptedRows vformat schedules model))

/-- `SetFilterExpression`. Between two filters that match everything there is nothing to rebuild. -/
def setFilterExpression (schedules : FilterSchedules) (model : LogFilterModel)
    (expression : CompiledFilter) :
    LogFilterModel :=
  if model.compiledExpression.node.isMatchAllCompiled && expression.node.isMatchAllCompiled then
    { model with compiledExpression := expression }
  else rebuildAcceptedRows vformat schedules { model with compiledExpression := expression }

/-- `SetFilterRules`. -/
def setFilterRules (schedules : FilterSchedules) (model : LogFilterModel)
    (rules : List RowPredicate) : LogFilterModel :=
  setFilterExpression vformat schedules model (.ofRules rules)

end Filtering

section RowSignals

/-- `OnSourceRowsInserted`: the rows behind move up, and the new rows that match are inserted. -/
def onSourceRowsInserted (model : LogFilterModel) (first insertedCount : Nat) : LogFilterModel :=
  if insertedCount = 0 then model
  else
    let shifted := model.acceptedSourceRows.map fun row => if first ≤ row then row + insertedCount
      else row
    let newlyAccepted := (List.range' first insertedCount).filter
      (matchesRulesAtSourceRow vformat model)
    match model.sortColumn with
    | none =>
      -- Without a sort the new rows go into the gap that the shift left.
      rebuildReverseIndex
        { model with
          acceptedSourceRows := insertBlock shifted
            (lowerBound (fun row => decide (row < first)) shifted) newlyAccepted }
    | some _ =>
      let inserted := newlyAccepted.foldl
        (fun rows row => insertBlock rows
          (lowerBound (fun other => lessThanSourceRows vformat model other row) rows) [row]) shifted
      rebuildReverseIndex { model with acceptedSourceRows := inserted }

/-- `OnSourceRowsRemoved`: the removed rows are erased in ranges of proxy rows, and the rows behind
move down. -/
def onSourceRowsRemoved (model : LogFilterModel) (first removedCount : Nat) : LogFilterModel :=
  if removedCount = 0 then model
  else
    let proxyRowsToDrop := positionsFrom (fun row =>
      decide (first ≤ row ∧ row < first + removedCount)) 0
      model.acceptedSourceRows
    let surviving := eraseRanges model.acceptedSourceRows (coalesceRanges proxyRowsToDrop)
    rebuildReverseIndex
      { model with
        acceptedSourceRows := surviving.map fun row =>
          if first + removedCount ≤ row then row - removedCount else row }

/-- `OnSourceDataChanged`. Only a change in a column of the filter rebuilds the rows. -/
def onSourceDataChanged (schedules : FilterSchedules) (model : LogFilterModel)
    (firstColumn lastColumn : Nat) :
    LogFilterModel :=
  if model.compiledExpression.targets firstColumn lastColumn then rebuildAcceptedRows vformat
    schedules model
  else model

end RowSignals

section ColumnSignals

/-- `OnSourceColumnsInserted`: the sort column moves right with its column. -/
def onSourceColumnsInserted (model : LogFilterModel) (first last : Nat) : LogFilterModel :=
  { model with
    sortColumn := model.sortColumn.map fun column =>
      if first ≤ column then column + (last - first + 1) else column }

/-- `OnSourceColumnsRemoved`: without its column the sort is gone, but the rows stay as they are. -/
def onSourceColumnsRemoved (model : LogFilterModel) (first last : Nat) : LogFilterModel :=
  { model with
    sortColumn := model.sortColumn.bind fun column =>
      if first ≤ column ∧ column ≤ last then none
      else if last < column then some (column - (last - first + 1))
      else some column }

/-- The sort column's new place when the columns `from..toLast` move in front of `destColumn`. -/
def movedSortColumn (fromColumn toLast destColumn column : Nat) : Nat :=
  let span := toLast - fromColumn + 1
  if fromColumn ≤ column ∧ column ≤ toLast then
    let moved := destColumn + (column - fromColumn)
    if toLast < destColumn then moved - span else moved
  else if toLast < column ∧ column < destColumn then column - span
  else if destColumn ≤ column ∧ column < fromColumn then column + span
  else column

/-- `OnSourceColumnsMoved`, after a move that `beginMoveColumns` took: one to a place outside the
moved columns. -/
def onSourceColumnsMoved (model : LogFilterModel) (fromColumn toLast destColumn : Nat) :
    LogFilterModel :=
  if fromColumn ≤ destColumn ∧ destColumn ≤ toLast + 1 then model
  else { model with
    sortColumn := model.sortColumn.map (movedSortColumn fromColumn toLast destColumn) }

end ColumnSignals

end LogFilterModel

/-- What reaches the proxy. Each signal of the source comes with the source as it is from
then on. -/
inductive FilterEvent where
  | rowsInserted (source : SourceModel) (first insertedCount : Nat)
  | rowsRemoved (source : SourceModel) (first removedCount : Nat)
  | dataChanged (source : SourceModel) (firstColumn lastColumn : Nat) (schedules : FilterSchedules)
  | columnsInserted (source : SourceModel) (first last : Nat)
  | columnsRemoved (source : SourceModel) (first last : Nat)
  | columnsMoved (source : SourceModel) (fromColumn toLast destColumn : Nat)
  /-- The source shows its rows in another order, such as the newest first. -/
  | layoutChanged (source : SourceModel) (schedules : FilterSchedules)
  | modelReset (source : SourceModel) (schedules : FilterSchedules)
  | sort (column : Option Nat) (order : SortOrder)
  | setFilterExpression (expression : CompiledFilter) (schedules : FilterSchedules)
  | setFilterRules (rules : List RowPredicate) (schedules : FilterSchedules)

namespace LogFilterModel

variable (vformat : Bytes → LogValue → Bytes)

/-- The state after an event. -/
def step (model : LogFilterModel) : FilterEvent → LogFilterModel
  | .rowsInserted source first insertedCount =>
    onSourceRowsInserted vformat { model with source } first insertedCount
  | .rowsRemoved source first removedCount =>
    onSourceRowsRemoved { model with source } first removedCount
  | .dataChanged source firstColumn lastColumn schedules =>
    onSourceDataChanged vformat schedules { model with source } firstColumn lastColumn
  | .columnsInserted source first last => onSourceColumnsInserted { model with source } first last
  | .columnsRemoved source first last => onSourceColumnsRemoved { model with source } first last
  | .columnsMoved source fromColumn toLast destColumn =>
    onSourceColumnsMoved { model with source } fromColumn toLast destColumn
  -- `OnSourceLayoutChanged` and `OnSourceModelReset` do what `RebuildAcceptedRows`
  -- does, in other brackets.
  | .layoutChanged source schedules => rebuildAcceptedRows vformat schedules { model with source }
  | .modelReset source schedules => rebuildAcceptedRows vformat schedules { model with source }
  | .sort column order => sort vformat model column order
  | .setFilterExpression expression schedules =>
    setFilterExpression vformat schedules model expression
  | .setFilterRules rules schedules => setFilterRules vformat schedules model rules

/-- The state after some events. -/
def run (model : LogFilterModel) (events : List FilterEvent) : LogFilterModel :=
  events.foldl (step vformat) model

end LogFilterModel

end Loglib
