import Loglib.App.FilterProxy

/-! What the signals of a source promise, and that the proxy stays exact when it follows them. -/

namespace Loglib

open LogFilterModel

variable {vformat : Bytes → LogValue → Bytes}

section RowSignals

variable (vformat)

/-- The rows that stay look the same to the filter, and those that are shown to the sort, at their
new places. -/
structure LogFilterModel.KeepsRows (model : LogFilterModel) (source : SourceModel)
    (stays : Nat → Prop) (place : Nat → Nat) :
    Prop where
  accepts : ∀ row < model.source.rowCount, stays row →
    source.accepts vformat model.compiledExpression (place row) =
      model.source.accepts vformat model.compiledExpression row
  compares : ∀ column, model.sortColumn = some column →
    ∀ a ∈ model.acceptedSourceRows, stays a → ∀ b ∈ model.acceptedSourceRows, stays b →
      source.compareSourceRows vformat column (place a) (place b) =
        model.source.compareSourceRows vformat column a b

variable {vformat}

/-- Rows that stay keep their order if their places do. -/
theorem LogFilterModel.KeepsRows.pairwise {model : LogFilterModel} {source : SourceModel}
    {stays : Nat → Prop}
    {place : Nat → Nat} (keeps : model.KeepsRows vformat source stays place)
    (ascends : ∀ a b, stays a → stays b → a < b → place a < place b) {rows : List Nat}
    (staying : ∀ row ∈ rows, row ∈ model.acceptedSourceRows ∧ stays row)
    (ordered : rows.Pairwise (model.source.PlacedBefore vformat model.sortColumn model.sortOrder)) :
    (rows.map place).Pairwise (source.PlacedBefore vformat model.sortColumn model.sortOrder) := by
  rw [List.pairwise_map]
  refine ordered.imp_of_mem ?_
  intro a b inA inB before
  obtain ⟨shownA, staysA⟩ := staying a inA
  obtain ⟨shownB, staysB⟩ := staying b inB
  -- Places ascend with the rows, so a tie is broken as before.
  have up := ascends a b staysA staysB
  unfold SourceModel.PlacedBefore at before ⊢
  cases sorted : model.sortColumn with
  | none =>
    rw [sorted] at before
    exact up before
  -- The column compares the two rows as it did.
  | some column =>
    rw [sorted] at before
    dsimp only at before ⊢
    rw [ComesBefore, keeps.compares column sorted a shownA staysA b shownB staysB]
    exact before.imp id fun tied => ⟨tied.1, up tied.2⟩

/-- Inserting rows one by one at the places that the search finds keeps the order. -/
theorem LogFilterModel.foldl_insert_sorted {model : LogFilterModel} {newRows : List Nat} :
    ∀ {rows : List Nat}, (∀ row ∈ rows, row < model.source.rowCount) →
      (∀ row ∈ newRows, row < model.source.rowCount) →
      (rows ++ newRows).Nodup →
      rows.Pairwise (model.source.PlacedBefore vformat model.sortColumn model.sortOrder) →
      (newRows.foldl (fun rows row =>
          insertBlock rows (lowerBound (fun other => model.lessThanSourceRows vformat other row)
            rows) [row]) rows).Perm
            (rows ++ newRows) ∧
        (newRows.foldl (fun rows row =>
          insertBlock rows (lowerBound (fun other => model.lessThanSourceRows vformat other row)
            rows) [row]) rows).Pairwise
            (model.source.PlacedBefore vformat model.sortColumn model.sortOrder) := by
  obtain ⟨κ, _, key, byKey, distinct⟩ :=
    model.source.placedBefore_byKey vformat model.sortColumn model.sortOrder
  induction newRows with
  | nil =>
    intro rows _ _ _ ordered
    rw [List.append_nil]
    exact ⟨List.Perm.refl _, ordered⟩
  | cons row rest ih =>
    intro rows inside newInside once ordered
    obtain ⟨rowInside, restInside⟩ := List.forall_mem_cons.mp newInside
    have perm := insertBlock_perm rows
      (lowerBound (fun other => model.lessThanSourceRows vformat other row) rows) [row]
    have regrouped : (rows ++ [row]) ++ rest = rows ++ row :: rest := by simp
    -- The row is not there yet, so its key is new, and the search finds the place of the key.
    have fresh : row ∉ rows := fun listed =>
      (List.nodup_append.mp once).2.2 row listed row List.mem_cons_self rfl
    have placed : (insertBlock rows
      (lowerBound (fun other => model.lessThanSourceRows vformat other row) rows)
        [row]).Pairwise fun a b => key a < key b := by
      apply insertBlock_single_pairwise (ordered.imp fun before => (byKey _ _).mp before)
      · intro entry listed
        rw [lessThanSourceRows_iff (inside entry listed) rowInside, byKey]
      · intro entry listed same
        exact fresh (distinct entry row same ▸ listed)
    obtain ⟨joined, sorted⟩ := @ih (insertBlock rows _ [row])
      (fun other listed => by
        rcases List.mem_append.mp (perm.mem_iff.mp listed) with old | new
        · exact inside other old
        · rwa [List.mem_singleton.mp new])
      restInside (by rw [(perm.append_right rest).nodup_iff, regrouped]; exact once)
      (placed.imp fun before => (byKey _ _).mpr before)
    refine ⟨joined.trans ?_, sorted⟩
    rw [← regrouped]
    exact perm.append_right rest

/-- The place of an old row after an insertion. -/
def placeAfterInsert (first insertedCount row : Nat) : Nat :=
  if first ≤ row then row + insertedCount else row

/-- Following an insertion keeps the proxy exact. -/
theorem LogFilterModel.onSourceRowsInserted_exact {model : LogFilterModel}
    (exact_ : model.Exact vformat)
    {source : SourceModel} {first insertedCount : Nat} (inside : first ≤ model.source.rowCount)
    (grown : source.rowCount = model.source.rowCount + insertedCount)
    (keeps : model.KeepsRows vformat source (fun _ =>
    True) (placeAfterInsert first insertedCount)) :
    (onSourceRowsInserted vformat { model with source } first insertedCount).Exact vformat := by
  unfold onSourceRowsInserted
  dsimp only
  have ascends : ∀ a b, True → True → a < b →
      placeAfterInsert first insertedCount a < placeAfterInsert first insertedCount b := by
    intro a b _ _ before
    unfold placeAfterInsert
    split <;> split <;> omega
  have shifted := keeps.pairwise ascends (fun row listed => ⟨listed, trivial⟩) exact_.ordered
  have newRows : ∀ row, row ∈ (List.range' first insertedCount).filter
      (matchesRulesAtSourceRow vformat { model with source }) ↔
        (first ≤ row ∧ row < first + insertedCount) ∧
          source.accepts vformat model.compiledExpression row = true := by
    intro row
    rw [List.mem_filter, List.mem_range'_1]
    refine and_congr_right fun range => ?_
    have known : row < source.rowCount := by omega
    rw [@matchesRulesAtSourceRow_eq vformat { model with source } row known]
  have oldRows : ∀ row, row ∈ model.acceptedSourceRows.map (placeAfterInsert first insertedCount) ↔
      (row < source.rowCount ∧ ¬(first ≤ row ∧ row < first + insertedCount)) ∧
        source.accepts vformat model.compiledExpression row = true := by
    intro row
    rw [List.mem_map]
    constructor
    · rintro ⟨old, listed, rfl⟩
      obtain ⟨known, passes⟩ := (exact_.accepted old).mp listed
      refine ⟨?_, by rw [keeps.accepts old known trivial]; exact passes⟩
      unfold placeAfterInsert
      split <;> omega
    · rintro ⟨⟨known, outside⟩, passes⟩
      -- The old row is found by going back over the inserted ones.
      have back : ∃ old < model.source.rowCount,
          placeAfterInsert first insertedCount old = row := by
        by_cases early : row < first
        · exact ⟨row, by omega, by rw [placeAfterInsert, if_neg (by omega)]⟩
        · refine ⟨row - insertedCount, by omega, ?_⟩
          rw [placeAfterInsert, if_pos (by omega)]
          omega
      obtain ⟨old, oldKnown, rfl⟩ := back
      rw [keeps.accepts old oldKnown trivial] at passes
      exact ⟨old, (exact_.accepted old).mpr ⟨oldKnown, passes⟩, rfl⟩
  have members : ∀ row, row ∈ model.acceptedSourceRows.map (placeAfterInsert first insertedCount) ++
      (List.range' first insertedCount).filter
        (matchesRulesAtSourceRow vformat { model with source }) ↔
        row < source.rowCount ∧ source.accepts vformat model.compiledExpression row = true := by
    intro row
    rw [List.mem_append, oldRows, newRows, ← or_and_right]
    refine and_congr_left fun _ => ?_
    omega
  split
  · -- An insertion of nothing leaves everything in place.
    rename_i empty
    subst empty
    have unmoved : placeAfterInsert first 0 = id := by
      funext row
      exact ite_self row
    have same : model.acceptedSourceRows.map (placeAfterInsert first 0) =
        model.acceptedSourceRows := by
      rw [unmoved, List.map_id]
    refine ⟨?_, exact_.once, ?_, ?_, exact_.inverse⟩
    · intro row
      rw [← members row, same]
      rw [List.range'_zero, List.filter_nil, List.append_nil]
    · rw [same] at shifted
      exact shifted
    · show model.sourceRowToProxyRow.length = source.rowCount
      rw [exact_.sized, grown, Nat.add_zero]
  · split
    · rename_i sorted
      -- Without a sort the inserted rows stand in the gap that the shift left.
      rw [sorted] at shifted
      apply rebuildReverseIndex_exact
      · intro row
        exact ((insertBlock_perm _ _ _).mem_iff).trans (members row)
      · show List.Pairwise (source.PlacedBefore vformat model.sortColumn model.sortOrder) _
        rw [sorted]
        have block : (List.range' first insertedCount).Pairwise (· < ·) := List.pairwise_lt_range'
        apply insertBlock_pairwise shifted (block.sublist List.filter_sublist)
        · refine shifted.imp ?_
          intro a b before passes
          exact decide_eq_true (before.trans (of_decide_eq_true passes))
        · intro entry _ passes row listed
          exact (of_decide_eq_true passes).trans_le ((newRows row).mp listed).1.1
        · intro entry listed fails row new
          have behind := ((oldRows entry).mp listed).1.2
          have reached := of_decide_eq_false fails
          have range := ((newRows row).mp new).1
          show row < entry
          omega
    · -- With a sort each row goes to its own place.
      obtain ⟨perm, placed⟩ := @foldl_insert_sorted vformat { model with source } _ _
        (fun row listed => ((oldRows row).mp listed).1.1)
        (fun row listed => ((members row).mp (List.mem_append_right _ listed)).1)
        (by
          rw [List.nodup_append]
          refine ⟨shifted.imp SourceModel.PlacedBefore.ne, (List.nodup_range').filter _, ?_⟩
          rintro row old _ new rfl
          exact ((oldRows row).mp old).1.2 ((newRows row).mp new).1)
        shifted
      exact rebuildReverseIndex_exact (fun row => perm.mem_iff.trans (members row)) placed

/-- A row of the range that an insertion or a removal is about. -/
def InRange (first count row : Nat) : Prop := first ≤ row ∧ row < first + count

/-- The place of a row that stays after a removal. -/
def placeAfterRemove (first removedCount row : Nat) : Nat :=
  if first + removedCount ≤ row then row - removedCount else row

/-- Following a removal keeps the proxy exact. -/
theorem LogFilterModel.onSourceRowsRemoved_exact {model : LogFilterModel}
    (exact_ : model.Exact vformat)
    {source : SourceModel} {first removedCount : Nat}
    (inside : first + removedCount ≤ model.source.rowCount)
    (shrunk : source.rowCount + removedCount = model.source.rowCount)
    (keeps : model.KeepsRows vformat source (fun row => ¬InRange first removedCount row)
      (placeAfterRemove first removedCount)) :
    (onSourceRowsRemoved { model with source } first removedCount).Exact vformat := by
  unfold onSourceRowsRemoved
  dsimp only
  rw [eraseRanges_coalesceRanges]
  have staying : ∀ row, row ∈ model.acceptedSourceRows.filter
      (fun row => !decide (first ≤ row ∧ row < first + removedCount)) ↔
        row ∈ model.acceptedSourceRows ∧ ¬InRange first removedCount row := by
    intro row
    rw [List.mem_filter, Bool.not_eq_true', decide_eq_false_iff_not]
    rfl
  have ascends : ∀ a b, ¬InRange first removedCount a → ¬InRange first removedCount b → a < b →
      placeAfterRemove first removedCount a < placeAfterRemove first removedCount b := by
    intro a b staysA staysB before
    unfold InRange at staysA staysB
    unfold placeAfterRemove
    split <;> split <;> omega
  have moved := keeps.pairwise ascends (fun row listed => (staying row).mp listed)
    (exact_.ordered.sublist List.filter_sublist)
  have members : ∀ row, row ∈ (model.acceptedSourceRows.filter
      fun row => !decide (first ≤ row ∧ row < first + removedCount)).map
        (placeAfterRemove first removedCount) ↔
        row < source.rowCount ∧ source.accepts vformat model.compiledExpression row = true := by
    intro row
    rw [List.mem_map]
    constructor
    · rintro ⟨old, listed, rfl⟩
      obtain ⟨shown, stays⟩ := (staying old).mp listed
      obtain ⟨known, passes⟩ := (exact_.accepted old).mp shown
      refine ⟨?_, by rw [keeps.accepts old known stays]; exact passes⟩
      unfold InRange at stays
      unfold placeAfterRemove
      split <;> omega
    · rintro ⟨known, passes⟩
      -- The old row is found by going back over the removed ones.
      have back : ∃ old < model.source.rowCount, ¬InRange first removedCount old ∧
          placeAfterRemove first removedCount old = row := by
        unfold InRange placeAfterRemove
        by_cases early : row < first
        · exact ⟨row, by omega, by omega, by rw [if_neg (by omega)]⟩
        · refine ⟨row + removedCount, by omega, by omega, ?_⟩
          rw [if_pos (by omega), Nat.add_sub_cancel]
      obtain ⟨old, oldKnown, stays, rfl⟩ := back
      rw [keeps.accepts old oldKnown stays] at passes
      exact ⟨old, (staying old).mpr ⟨(exact_.accepted old).mpr ⟨oldKnown, passes⟩, stays⟩, rfl⟩
  split
  · -- A removal of nothing leaves everything in place.
    rename_i empty
    subst empty
    have unmoved : placeAfterRemove first 0 = id := by
      funext row
      exact ite_self row
    have none_ : model.acceptedSourceRows.filter (fun row =>
      !decide (first ≤ row ∧ row < first + 0)) =
        model.acceptedSourceRows := by
      refine List.filter_eq_self.mpr fun row _ => ?_
      rw [Bool.not_eq_true', decide_eq_false_iff_not]
      omega
    rw [unmoved, List.map_id, none_] at moved members
    refine ⟨members, exact_.once, moved, ?_, exact_.inverse⟩
    show model.sourceRowToProxyRow.length = source.rowCount
    rw [exact_.sized, ← shrunk, Nat.add_zero]
  · exact rebuildReverseIndex_exact members moved

end RowSignals

section DataSignals

/-- A column of the table shows the same in all rows, to the filter's predicates. -/
structure LogTable.KeepsCells (vformat : Bytes → LogValue → Bytes) (old new : LogTable)
    (column : Nat) : Prop where
  value : ∀ row, new.getValue row column = old.getValue row column
  id : ∀ row, new.getEnumValueId row column = old.getEnumValueId row column
  text : ∀ row, new.getValueOrFormatted vformat row column =
    old.getValueOrFormatted vformat row column

/-- A predicate only asks about the cells of its column. -/
theorem matchesRow_congr {old new : LogTable} {predicate : RowPredicate}
    (keeps : old.KeepsCells vformat new predicate.column)
    (row : Nat) : matchesRow vformat new row predicate = matchesRow vformat old row predicate := by
  refine matchesRow_of_cell (keeps.value row) (keeps.text row) fun own same => ?_
  subst same
  exact keeps.id row

/-- A filter tree only asks its leaves. -/
theorem evaluateExpression_congr {predicates : PredicateAddress → RowPredicate} {old new : LogTable}
    {row : Nat}
    (expression : CompiledFilterExpression)
    (same : ∀ address ∈ collectLeafsInVisitOrder expression,
      matchesRow vformat new row (predicates address) = matchesRow vformat old row
        (predicates address)) :
    evaluateExpression vformat predicates new row expression = evaluateExpression vformat predicates
      old row expression := by
  induction expression with
  | leaf predicate => exact same predicate (List.mem_singleton.mpr rfl)
  -- A node reads what its children read, and the leaves of a child are leaves of the node.
  | and children ih =>
    show evaluateAll _ _ _ _ children = evaluateAll _ _ _ _ children
    change ∀ address ∈ collectLeafsOfChildren children, _ at same
    induction children with
    | nil => rfl
    | cons child rest restIh =>
      rw [collectLeafsOfChildren, List.forall_mem_append] at same
      rw [evaluateAll, evaluateAll, ih child List.mem_cons_self same.1,
        restIh (fun other listed => ih other (List.mem_cons_of_mem _ listed)) same.2]
  | or children ih =>
    show evaluateAny _ _ _ _ children = evaluateAny _ _ _ _ children
    change ∀ address ∈ collectLeafsOfChildren children, _ at same
    induction children with
    | nil => rfl
    | cons child rest restIh =>
      rw [collectLeafsOfChildren, List.forall_mem_append] at same
      rw [evaluateAny, evaluateAny, ih child List.mem_cons_self same.1,
        restIh (fun other listed => ih other (List.mem_cons_of_mem _ listed)) same.2]
  | notNone => rfl
  | notSome child ih =>
    rw [evaluateExpression, evaluateExpression, ih same]

/-- A change outside the columns of the filter changes no verdict. -/
theorem SourceModel.accepts_of_outside {old new : SourceModel} {filter : CompiledFilter}
    {firstColumn lastColumn : Nat}
    (sameRows : new.logRows = old.logRows)
    (cells : ∀ column, ¬(firstColumn ≤ column ∧ column ≤ lastColumn) →
    old.table.KeepsCells vformat new.table column)
    (outside : filter.targets firstColumn lastColumn = false) (row : Nat) :
    new.accepts vformat filter row = old.accepts vformat filter row := by
  unfold accepts sourceRowToLogRow
  rw [sameRows]
  congr 1
  funext logRow
  apply evaluateExpression_congr
  intro address listed
  apply matchesRow_congr
  -- The leaf's column is among the referenced ones, none of which has changed.
  apply cells
  have unlisted := List.any_eq_false.mp outside _ (filter.covers address listed)
  rwa [Bool.and_eq_true, decide_eq_true_iff, decide_eq_true_iff] at unlisted

/-- Following a change of data keeps the proxy exact, if the shown rows still compare the same or
are rebuilt. -/
theorem LogFilterModel.onSourceDataChanged_exact (schedules : FilterSchedules)
    {model : LogFilterModel}
    (exact_ : model.Exact vformat) {source : SourceModel} {firstColumn lastColumn : Nat}
    (sameRows : source.logRows = model.source.logRows)
    (cells : ∀ column, ¬(firstColumn ≤ column ∧ column ≤ lastColumn) →
      model.source.table.KeepsCells vformat source.table column)
    (rebuilt : model.compiledExpression.targets firstColumn lastColumn = true →
      source.RanksSettle ((List.range source.rowCount).filter
        (source.accepts vformat model.compiledExpression))
        model.sortColumn model.sortOrder)
    (kept : model.compiledExpression.targets firstColumn lastColumn = false →
    ∀ column, model.sortColumn = some column →
      ∀ a ∈ model.acceptedSourceRows, ∀ b ∈ model.acceptedSourceRows,
        source.compareSourceRows vformat column a b = model.source.compareSourceRows vformat
          column a b) :
    (onSourceDataChanged vformat schedules { model with source } firstColumn lastColumn).Exact
      vformat := by
  unfold onSourceDataChanged
  dsimp only
  split
  · -- The expression looks at the changed columns, so every row is asked again.
    rename_i targeted
    exact rebuildAcceptedRows_exact schedules (rebuilt targeted)
  · -- It looks elsewhere, so each row is accepted as before and keeps its place.
    rename_i untouched
    have untouched := Bool.eq_false_of_not_eq_true untouched
    have sameCount : source.rowCount = model.source.rowCount := congrArg List.length sameRows
    have accepts := SourceModel.accepts_of_outside sameRows cells untouched
    have keeps : model.KeepsRows vformat source (fun _ => True) id :=
      ⟨fun row _ _ => accepts row, fun column sorted a shownA _ b shownB _ =>
        kept untouched column sorted a shownA b shownB⟩
    have ordered := keeps.pairwise (fun _ _ _ _ before => before) (fun row listed =>
      ⟨listed, trivial⟩) exact_.ordered
    rw [List.map_id] at ordered
    refine ⟨?_, exact_.once, ordered, exact_.sized.trans sameCount.symm, exact_.inverse⟩
    intro row
    show _ ↔ row < source.rowCount ∧ source.accepts vformat model.compiledExpression row = true
    rw [sameCount, accepts row]
    exact exact_.accepted row

end DataSignals

end Loglib
