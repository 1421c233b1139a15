import Loglib.App.LogFilterModel

/-! When the filter proxy is what a rebuild would make of it: the accepted rows, in the sort order,
with their places. -/

namespace Loglib

section Meaning

variable (vformat : Bytes → LogValue → Bytes)

/-- `CompareRows` on the entries of two source rows. -/
def SourceModel.compareSourceRows (source : SourceModel) (column left right : Nat) : Int :=
  comparePositions vformat source.table source.logRows column (source.sortRank column) left right

/-- The filter accepts the entry of a source row. -/
def SourceModel.accepts (source : SourceModel) (filter : CompiledFilter) (row : Nat) : Bool :=
  (source.sourceRowToLogRow row).any fun logRow =>
    evaluateExpression vformat filter.predicates source.table logRow filter.node

/-- A source row belongs before another one: by the sort column and its direction, and else by
source row. -/
def SourceModel.PlacedBefore (source : SourceModel) (sortColumn : Option Nat) (order : SortOrder)
    (a b : Nat) : Prop :=
  match sortColumn with
  | none => a < b
  | some column => ComesBefore order.isAscending (source.compareSourceRows vformat column) a b

/-- The proxy is what a rebuild makes of its source: the accepted rows, each once, in order, with an
exact inverse. -/
structure LogFilterModel.Exact (model : LogFilterModel) : Prop where
  accepted : ∀ row, row ∈ model.acceptedSourceRows ↔
    row < model.source.rowCount ∧ model.source.accepts vformat model.compiledExpression row = true
  once : model.acceptedSourceRows.Nodup
  ordered : model.acceptedSourceRows.Pairwise
    (model.source.PlacedBefore vformat model.sortColumn model.sortOrder)
  sized : model.sourceRowToProxyRow.length = model.source.rowCount
  inverse : ∀ row proxyRow : Nat, model.sourceRowToProxyRow[row]? = some (some proxyRow) ↔
    model.acceptedSourceRows[proxyRow]? = some row

end Meaning

variable {vformat : Bytes → LogValue → Bytes}

section Orders

variable {source : SourceModel} {sortColumn : Option Nat} {order : SortOrder}

/-- The rows are ordered by keys, and no two rows share one. -/
theorem SourceModel.placedBefore_byKey (vformat : Bytes → LogValue → Bytes) (source : SourceModel)
    (sortColumn : Option Nat) (order : SortOrder) :
    ∃ (κ : Type) (_ : LinearOrder κ) (key : Nat → κ),
      (∀ a b, source.PlacedBefore vformat sortColumn order a b ↔ key a < key b) ∧ ∀ a b,
        key a = key b → a = b := by
  cases sortColumn with
  | none => exact ⟨Nat, inferInstance, id, fun _ _ => Iff.rfl, fun _ _ same => same⟩
  | some column =>
    obtain ⟨κ, _, key, orders⟩ :=
      comparePositions_ordersBy vformat source.table source.logRows column (source.sortRank column)
    -- The source row is part of the key, after the key of its entry.
    cases order with
    | ascending =>
      refine ⟨κ ×ₗ Nat, inferInstance, fun row => toLex (key row, row), ?_, ?_⟩
      · intro a b
        rw [← beforeWithTies_iff orders, beforeWithTies_eq_true_iff]
        rfl
      · intro a b same
        exact (Prod.mk.inj (toLex_inj.mp same)).2
    | descending =>
      have swapped : OrdersBy (fun a b => source.compareSourceRows vformat column b a) fun row =>
          OrderDual.toDual (key row) :=
        fun a b => orders b a
      refine ⟨κᵒᵈ ×ₗ Nat, inferInstance, fun row => toLex (OrderDual.toDual (key row), row), ?_, ?_⟩
      · intro a b
        rw [← beforeWithTies_iff swapped, beforeWithTies_eq_true_iff]
        have flipped : source.compareSourceRows vformat column a b =
            -source.compareSourceRows vformat column b a :=
          orders.antisymm a b
        rw [SourceModel.PlacedBefore, ComesBefore, flipped]
        simp [SortOrder.isAscending]
      · intro a b same
        exact (Prod.mk.inj (toLex_inj.mp same)).2

/-- No row belongs before itself. -/
theorem SourceModel.PlacedBefore.ne {a b : Nat}
    (before : source.PlacedBefore vformat sortColumn order a b) : a ≠ b := by
  obtain ⟨κ, _, key, byKey, -⟩ := source.placedBefore_byKey vformat sortColumn order
  rintro rfl
  exact lt_irrefl _ ((byKey a a).mp before)

/-- On a column that the table does not have, all rows tie. -/
theorem SourceModel.compareSourceRows_of_le {column : Nat}
    (outside : source.table.columnCount ≤ column) (a b : Nat) :
    source.compareSourceRows vformat column a b = 0 := by
  have absent : source.table.columns[column]? = none := List.getElem?_eq_none outside
  unfold compareSourceRows comparePositions compareRows
  rw [absent]
  exact ite_self 0

/-- A source row's log row. -/
theorem SourceModel.sourceRowToLogRow_of_lt {row : Nat} (inside : row < source.rowCount) :
    source.sourceRowToLogRow row = some (rowAt source.logRows row) := by
  have held : source.logRows[row]? = some (source.logRows.get ⟨row, inside⟩) :=
    List.getElem?_eq_getElem inside
  rw [sourceRowToLogRow, rowAt, held, Option.getD_some]

/-- `LessThanSourceRows` decides the order of the rows of the source. -/
theorem LogFilterModel.lessThanSourceRows_iff {model : LogFilterModel} {left right : Nat}
    (inLeft : left < model.source.rowCount) (inRight : right < model.source.rowCount) :
    model.lessThanSourceRows vformat left right = true ↔
      model.source.PlacedBefore vformat model.sortColumn model.sortOrder left right := by
  unfold lessThanSourceRows SourceModel.PlacedBefore
  cases model.sortColumn with
  | none => exact decide_eq_true_iff
  | some column =>
    dsimp only
    split
    · rename_i outside
      simp [ComesBefore, SourceModel.compareSourceRows_of_le outside]
    · rw [SourceModel.sourceRowToLogRow_of_lt inLeft, SourceModel.sourceRowToLogRow_of_lt inRight]
      -- The compare of the log rows is the compare of the source rows.
      show (if model.source.compareSourceRows vformat column left right = 0 then decide
        (left < right) else _) = true ↔ _
      unfold ComesBefore
      split
      · rename_i tie
        change model.source.compareSourceRows vformat column left right = 0 at tie
        simp [tie]
      · rename_i differ
        change ¬model.source.compareSourceRows vformat column left right = 0 at differ
        rw [or_iff_left fun tied => differ tied.1]
        cases model.sortOrder with
        | ascending => exact decide_eq_true_iff
        | descending => exact decide_eq_true_iff

end Orders

section ReverseIndex

variable {rows : List Nat} {rowCount : Nat}

/-- There is one place for each source row. -/
theorem LogFilterModel.length_reverseIndex (rowCount : Nat) (rows : List Nat) :
    (LogFilterModel.reverseIndex rowCount rows).length = rowCount := by
  rw [reverseIndex, length_foldl_set, List.length_replicate]

/-- The reverse index of rows that are listed once is the inverse of the list. -/
theorem LogFilterModel.reverseIndex_iff (once : rows.Nodup) (inside : ∀ row ∈ rows, row < rowCount)
    (row proxyRow : Nat) :
    (LogFilterModel.reverseIndex rowCount rows)[row]? = some (some proxyRow) ↔
      rows[proxyRow]? = some row := by
  have named : (rows.zipIdx.map fun entry => (entry.1, some entry.2)).map (·.1) = rows := by
    rw [List.map_map]
    exact List.zipIdx_map_fst 0 rows
  have written : ∀ {row proxyRow : Nat}, rows[proxyRow]? = some row →
      (reverseIndex rowCount rows)[row]? = some (some proxyRow) := by
    intro row proxyRow placed
    apply foldl_set_of_mem
    · rwa [named]
    · exact List.mem_map.mpr ⟨(row, proxyRow), List.mk_mem_zipIdx_iff_getElem?.mpr placed, rfl⟩
    · rw [List.length_replicate]
      exact inside row (List.mem_of_getElem? placed)
  refine ⟨fun found => ?_, written⟩
  -- A row that is not listed keeps the mark of an invisible row.
  by_cases listed : row ∈ rows
  · obtain ⟨other, placed⟩ := List.mem_iff_getElem?.mp listed
    rw [written placed] at found
    rwa [← Option.some.inj (Option.some.inj found)]
  · rw [reverseIndex, foldl_set_of_notMem (by rwa [named]), List.getElem?_replicate] at found
    split at found
    · exact absurd (Option.some.inj found) (Option.some_ne_none proxyRow).symm
    · exact absurd found.symm (Option.some_ne_none (some proxyRow))

/-- Accepted rows in order are all that the proxy needs besides their reverse index. -/
theorem LogFilterModel.rebuildReverseIndex_exact {model : LogFilterModel}
    (accepted : ∀ row, row ∈ model.acceptedSourceRows ↔
      row < model.source.rowCount ∧
        model.source.accepts vformat model.compiledExpression row = true)
    (ordered : model.acceptedSourceRows.Pairwise
    (model.source.PlacedBefore vformat model.sortColumn model.sortOrder)) :
    (model.rebuildReverseIndex).Exact vformat := by
  have once : model.acceptedSourceRows.Nodup := ordered.imp SourceModel.PlacedBefore.ne
  refine ⟨accepted, once, ordered, length_reverseIndex _ _, ?_⟩
  exact reverseIndex_iff once fun row listed => ((accepted row).mp listed).1

end ReverseIndex

section Rebuilding

variable {source : SourceModel} {filter : CompiledFilter}

/-- A filter that matches everything accepts every row of the source. -/
theorem SourceModel.accepts_of_matchAll {row : Nat}
    (matchAll : filter.node.isMatchAllCompiled = true)
    (inside : row < source.rowCount) : source.accepts vformat filter row = true := by
  rw [accepts, sourceRowToLogRow_of_lt inside, Option.any_some]
  -- Only a conjunction without children matches everything.
  cases shape : filter.node with
  | and children =>
    rw [shape] at matchAll
    cases children with
    | nil => rfl
    | cons => contradiction
  | leaf => rw [shape] at matchAll; contradiction
  | or => rw [shape] at matchAll; contradiction
  | not => rw [shape] at matchAll; contradiction

/-- `MatchesRulesAtSourceRow` decides acceptance of the rows of the source. -/
theorem LogFilterModel.matchesRulesAtSourceRow_eq {model : LogFilterModel} {row : Nat}
    (inside : row < model.source.rowCount) :
    model.matchesRulesAtSourceRow vformat row =
      model.source.accepts vformat model.compiledExpression row := by
  unfold matchesRulesAtSourceRow
  split
  · rename_i matchAll
    exact (SourceModel.accepts_of_matchAll matchAll inside).symm
  · rw [SourceModel.accepts, SourceModel.sourceRowToLogRow_of_lt inside]
    rfl

/-- The log rows of the source rows are the rows of the table, each once. -/
theorem SourceModel.logRows_nodup (source : SourceModel) : source.logRows.Nodup :=
  source.chained.nodup_iff.mpr List.nodup_range

/-- A log row's source row is where the chain of proxies shows it. -/
theorem SourceModel.logRowToSourceRow_eq_some_iff {logRow row : Nat} :
    source.logRowToSourceRow logRow = some row ↔ source.sourceRowToLogRow row = some logRow := by
  unfold logRowToSourceRow sourceRowToLogRow
  split
  · rename_i listed
    rw [Option.some_inj]
    constructor
    · rintro rfl
      exact List.getElem?_idxOf listed
    · intro held
      -- The chain shows the log row once only.
      obtain ⟨inside, rfl⟩ := List.getElem?_eq_some_iff.mp held
      exact source.logRows_nodup.idxOf_getElem row inside
  · rename_i unlisted
    refine iff_of_false (Option.some_ne_none row).symm fun held => ?_
    exact unlisted (List.mem_of_getElem? held)

/-- Filtering anew gives the accepted source rows in ascending order. -/
theorem LogFilterModel.recomputeAcceptedRows_eq (schedules : FilterSchedules)
    (model : LogFilterModel) :
    model.recomputeAcceptedRows vformat schedules =
      { model with
        acceptedSourceRows := (List.range model.source.rowCount).filter
          (model.source.accepts vformat model.compiledExpression) } := by
  unfold recomputeAcceptedRows
  dsimp only
  split
  · rename_i matchAll
    congr 1
    refine (List.filter_eq_self.mpr ?_).symm
    intro row listed
    exact SourceModel.accepts_of_matchAll matchAll (List.mem_range.mp listed)
  · congr 1
    rw [filterAcceptedRows_eq, Option.getD_some]
    -- The accepted log rows name each accepted source row once, in the order of the log.
    have logRows : (((List.range model.source.table.rowCount).filter fun logRow =>
      evaluateExpression vformat
        model.compiledExpression.predicates model.source.table logRow
          model.compiledExpression.node).filterMap
          model.source.logRowToSourceRow).Nodup := by
      refine List.Nodup.filterMap ?_ (List.nodup_range.filter _)
      intro first second row named also
      rw [Option.mem_def, SourceModel.logRowToSourceRow_eq_some_iff] at named also
      exact Option.some.inj (named.symm.trans also)
    apply eq_filter_range
    · have sorted := List.pairwise_insertionSort (· ≤ ·)
        (((List.range model.source.table.rowCount).filter
        fun logRow => evaluateExpression vformat model.compiledExpression.predicates
          model.source.table logRow
          model.compiledExpression.node).filterMap model.source.logRowToSourceRow)
      have once := (List.perm_insertionSort (· ≤ ·) _).nodup_iff.mpr logRows
      exact (sorted.and once).imp fun both => lt_of_le_of_ne both.1 both.2
    · intro row
      simp only [List.mem_insertionSort, List.mem_filterMap, List.mem_filter, List.mem_range,
        SourceModel.logRowToSourceRow_eq_some_iff]
      constructor
      · rintro ⟨logRow, ⟨-, passes⟩, held⟩
        refine ⟨(List.getElem?_eq_some_iff.mp held).1, ?_⟩
        rw [SourceModel.accepts, held]
        exact passes
      · rintro ⟨inside, passes⟩
        have held := SourceModel.sourceRowToLogRow_of_lt inside
        rw [SourceModel.accepts, held, Option.any_some] at passes
        refine ⟨_, ⟨?_, passes⟩, held⟩
        exact List.mem_range.mp (model.source.chained.mem_iff.mp (List.mem_of_getElem? held))

end Rebuilding

section Sorting

/-- The ranks of a sort place no two of the rows in the wrong order. -/
def SourceModel.RanksSettle (source : SourceModel) (rows : List Nat) (sortColumn : Option Nat)
    (order : SortOrder) : Prop :=
  ∀ column, sortColumn = some column →
    ¬SentinelTie source.table (rows.map (rowAt source.logRows)) column order.isAscending
      (source.sortRank column)

/-- Rows that tie on the sort column stand in ascending source order. -/
def SourceModel.TiesAscend (vformat : Bytes → LogValue → Bytes) (source : SourceModel)
    (rows : List Nat)
    (sortColumn : Option Nat) : Prop :=
  ∀ column, sortColumn = some column →
    rows.Pairwise fun a b => source.compareSourceRows vformat column a b = 0 → a < b

/-- The positions of a list, read in any order, give its entries. -/
theorem map_getD_perm {positions : List Nat} {rows : List Nat}
    (perm : positions.Perm (List.range rows.length)) :
    (positions.map fun position => rows[position]?.getD 0).Perm rows := by
  have mapped := perm.map fun position => rows[position]?.getD 0
  -- Read at every position in order, the rows come back.
  have whole : ((List.range rows.length).map fun position => rows[position]?.getD 0) = rows := by
    apply List.ext_getElem
    · simp
    · intro position _ inside
      simp [List.getElem?_eq_getElem inside]
  rwa [whole] at mapped

/-- The sort puts rows in order whose ties ascend. -/
theorem LogFilterModel.applySortPermutation_sorted {model : LogFilterModel}
    (inside : ∀ row ∈ model.acceptedSourceRows, row < model.source.rowCount)
    (ascending : model.sortColumn = none → model.acceptedSourceRows.Pairwise (· < ·))
    (ties : model.source.TiesAscend vformat model.acceptedSourceRows model.sortColumn)
    (settle : model.source.RanksSettle model.acceptedSourceRows model.sortColumn model.sortOrder) :
    ∃ rows, model.applySortPermutation vformat = { model with acceptedSourceRows := rows } ∧
      rows.Perm model.acceptedSourceRows ∧
        rows.Pairwise (model.source.PlacedBefore vformat model.sortColumn model.sortOrder) := by
  obtain ⟨source, filter, rows, index, sortColumn, order⟩ := model
  dsimp only at inside ascending ties settle ⊢
  cases sortColumn with
  | none => exact ⟨rows, rfl, List.Perm.refl _, ascending rfl⟩
  | some column =>
    simp only [applySortPermutation]
    split
    · rename_i skipped
      refine ⟨rows, rfl, List.Perm.refl _, ?_⟩
      rcases skipped with few | outside
      · -- Fewer than two rows hold no pair at all.
        rcases rows with _ | ⟨row, _ | ⟨other, rest⟩⟩
        · exact List.Pairwise.nil
        · exact List.pairwise_singleton _ _
        · simp at few
      · -- On a missing column all rows tie.
        refine (ties column rfl).imp fun {a b} ascends => .inr ?_
        have tied : source.compareSourceRows vformat column a b = 0 :=
          SourceModel.compareSourceRows_of_le outside a b
        exact ⟨tied, ascends tied⟩
    · have logRows : (rows.map fun row => (source.sourceRowToLogRow row).getD 0) =
          rows.map (rowAt source.logRows) := rfl
      rw [logRows]
      obtain ⟨perm, placed⟩ := (sortPermutationByColumn_sorted_iff vformat source.table
        (rows.map (rowAt source.logRows)) column order.isAscending
          (source.sortRank column)).mpr (settle column rfl)
      refine ⟨_, rfl, ?_, ?_⟩
      · exact map_getD_perm (by rwa [List.length_map] at perm)
      · rw [List.pairwise_map]
        refine placed.imp_of_mem ?_
        intro a b inA inB before
        rw [perm.mem_iff, List.mem_range, List.length_map] at inA inB
        have heldA : rows[a]? = some (rows.get ⟨a, inA⟩) := List.getElem?_eq_getElem inA
        have heldB : rows[b]? = some (rows.get ⟨b, inB⟩) := List.getElem?_eq_getElem inB
        have compared : comparePositions vformat source.table (rows.map (rowAt source.logRows))
            column (source.sortRank column) a b = source.compareSourceRows vformat column
              (rows[a]?.getD 0) (rows[b]?.getD 0) := by
          unfold SourceModel.compareSourceRows comparePositions
          simp only [rowAt, List.getElem?_map, heldA, heldB, Option.map_some, Option.getD_some]
        rw [ComesBefore, compared] at before
        -- Strict places carry over, and ties are in input order, which ascends.
        refine before.imp id fun tied => ⟨tied.1, ?_⟩
        have ascends := List.pairwise_iff_getElem.mp (ties column rfl) a b inA inB tied.2
        rw [heldA, heldB] at tied ⊢
        exact ascends tied.1

/-- Rebuilding makes the proxy exact if the ranks of the sort settle every pair. -/
theorem LogFilterModel.rebuildAcceptedRows_exact (schedules : FilterSchedules)
    {model : LogFilterModel}
    (settle : model.source.RanksSettle ((List.range model.source.rowCount).filter
      (model.source.accepts vformat model.compiledExpression)) model.sortColumn model.sortOrder) :
    (model.rebuildAcceptedRows vformat schedules).Exact vformat := by
  unfold rebuildAcceptedRows
  rw [recomputeAcceptedRows_eq]
  -- The accepted rows come in the order of the source.
  have cut : ((List.range model.source.rowCount).filter
    (model.source.accepts vformat model.compiledExpression)).Pairwise
      (· < ·) := List.pairwise_lt_range.sublist List.filter_sublist
  have members : ∀ row, row ∈ (List.range model.source.rowCount).filter
      (model.source.accepts vformat model.compiledExpression) ↔
        row < model.source.rowCount ∧
          model.source.accepts vformat model.compiledExpression row = true := by
    intro row
    rw [List.mem_filter, List.mem_range]
  -- Ties keep this order.
  have ties : model.source.TiesAscend vformat ((List.range model.source.rowCount).filter
      (model.source.accepts vformat model.compiledExpression)) model.sortColumn := by
    intro column _
    refine cut.imp ?_
    intro a b before _
    exact before
  obtain ⟨rows, applied, perm, placed⟩ := @applySortPermutation_sorted vformat
    { model with
      acceptedSourceRows := (List.range model.source.rowCount).filter
        (model.source.accepts vformat model.compiledExpression) }
    (fun row listed => ((members row).mp listed).1) (fun _ => cut) ties settle
  rw [applied]
  exact rebuildReverseIndex_exact (fun row => perm.mem_iff.trans (members row)) placed

end Sorting

end Loglib
