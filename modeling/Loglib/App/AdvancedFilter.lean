import Loglib.App.SimpleFilters

/-! Taking an advanced filter apart into simple leaves and the rest, and loading a filter again. -/

namespace Loglib

/-- `FilterValidationReason`. -/
inductive FilterValidationReason where
  | outOfRangeRow
  | emptyEnumSelection
  | typeMismatch
  | missingTimeRange
  | missingNumericRange
  | missingStringMatch
  | missingBooleanSelection
deriving DecidableEq, Repr

/-- `FilterValidationFailure`. The row is missing where the keys do not resolve. -/
structure FilterValidationFailure where
  reason : FilterValidationReason
  row : Option Nat
  columnHeader : Bytes
deriving DecidableEq, Repr

/-- `BooleanFilterSides`. -/
structure BooleanFilterSides where
  includeTrue : Bool
  includeFalse : Bool

/-- `DecodeBooleanFilterSides`. -/
def decodeBooleanFilterSides (filterValues : List Bytes) : BooleanFilterSides where
  includeTrue := spells filterValues "true"
  includeFalse := spells filterValues "false"

/-- `isNumericColumn`. -/
def ColumnType.isNumeric (type : ColumnType) : Bool :=
  type = .integer || type = .floating || type = .number

/-- `typesMatch`: a rule's type fits the column's. -/
def typesMatch (filter : LeafRuleType) (column : ColumnType) : Bool :=
  (filter = .time && column = .time) ||
    (filter = .enumeration && column.isEnumLike) ||
    (filter = .boolean && column = .boolean) ||
    (filter = .number && column.isNumeric) ||
    (filter = .string && column ≠ .time && !column.isEnumLike && column ≠ .boolean &&
      !column.isNumeric)

/-- What a rule lacks for a column of its type. -/
def missingSelection (filter : LeafRule) : Option FilterValidationReason :=
  match filter.type with
  | .time =>
    if filter.filterBegin.isNone && filter.filterEnd.isNone then some .missingTimeRange else none
  | .number =>
    if filter.filterMinValue.isNone && filter.filterMaxValue.isNone then some .missingNumericRange
      else none
  | .boolean =>
    let sides := decodeBooleanFilterSides filter.filterValues
    if !sides.includeTrue && !sides.includeFalse then some .missingBooleanSelection else none
  | .string =>
    if filter.filterString.isNone || filter.matchType.isNone then some .missingStringMatch else none
  | .enumeration => none

/-- What is wrong with a rule for the column that it resolved to. -/
def invalidReason (filter : LeafRule) (column : Column) : Option FilterValidationReason :=
  if filter.type = .enumeration && filter.filterValues.isEmpty then some .emptyEnumSelection
  else if !typesMatch filter.type column.type then some .typeMismatch
  else missingSelection filter

/-- `ValidateFilterAgainstColumns`: none where the rule is valid. -/
def validateFilterAgainstColumns (filter : LeafRule) (columns : List Column) :
    Option FilterValidationFailure :=
  match (resolveLeafColumnByKeys filter.columnKeys columns).bind fun row =>
    columns[row]?.map (row, ·) with
  | none => some ⟨.outOfRangeRow, none, []⟩
  | some (row, column) =>
    (invalidReason filter column).map fun reason => ⟨reason, some row, column.header⟩

/-- `isSimpleRepresentable`: the simple editor can load the rule. -/
def isSimpleRepresentable (columns : List Column) (rule : LeafRule) : Bool :=
  (validateFilterAgainstColumns rule columns).isNone

/-- `promoteToColumnKeys`: bind a rule to all keys of its column. -/
def promoteToColumnKeys (columns : List Column) (rule : LeafRule) : LeafRule :=
  match (resolveLeafColumnByKeys rule.columnKeys columns).bind (columns[·]?) with
  | none => rule
  | some column => { rule with columnKeys := column.keys }

/-- `keepAsAdvanced`: a bare leaf is wrapped, any other tree stays as it is. -/
def keepAsAdvanced (node : FilterExpression) : FilterExpression :=
  if node.isLeaf then .and [node] else node

/-- A tree taken apart: the simple leaves and the remainder. -/
structure SplitFilter where
  extractedLeaves : List LeafRule
  rest : List FilterExpression

/-- Put one tree with the simple leaves, or with the remainder. -/
def SplitFilter.add (columns : List Column) (split : SplitFilter) (child : FilterExpression) :
    SplitFilter :=
  match child with
  | .leaf rule =>
    if isSimpleRepresentable columns rule then
      { split with extractedLeaves := split.extractedLeaves ++ [promoteToColumnKeys columns rule] }
    else { split with rest := split.rest ++ [keepAsAdvanced (.leaf rule)] }
  | other => { split with rest := split.rest ++ [keepAsAdvanced other] }

/-- Take a tree apart by its root: the children of a conjunction, or the tree itself. -/
def splitAdvancedFilter (columns : List Column) (result : FilterExpression) : SplitFilter :=
  match result with
  | .and children => children.foldl (SplitFilter.add columns) ⟨[], []⟩
  | other => SplitFilter.add columns ⟨[], []⟩ other

namespace FilterState

/-- Add rules under one id each. -/
def addLogFilters (state : FilterState) (ids : List Bytes) (filters : List LeafRule) :
    FilterState :=
  (ids.zip filters).foldl (fun state entry => state.addLogFilter entry.1 entry.2) state

/-- `ApplyAdvancedFilterResult`, with the ids that are created for the extracted leaves. -/
def applyAdvancedFilterResult (columns : List Column) (ids : List Bytes) (result : FilterExpression)
    (state : FilterState) : FilterState :=
  let split := splitAdvancedFilter columns result
  let remainder := { state.resetSimpleFilterState with expression := .and split.rest }
  (remainder.addLogFilters ids split.extractedLeaves).rebuildFilterExpressionFromSimpleLeaves

/-- The rule of a tree that is a leaf. -/
def leafRule? : FilterExpression → Option LeafRule
  | .leaf rule => some rule
  | _ => none

/-- The leaves of an expression that are loaded as simple filters. -/
def loadedFilters : FilterExpression → List LeafRule
  | .and children => children.filterMap leafRule?
  | other => (leafRule? other).toList

/-- `RebuildFiltersFromConfiguration`, with the failures of the rules that are dropped. -/
def rebuildFiltersFromConfiguration (columns : List Column) (ids : List Bytes)
    (state : FilterState) :
    FilterState × List FilterValidationFailure :=
  let loaded := loadedFilters state.expression
  let valid := loaded.filter fun saved => isSimpleRepresentable columns saved
  ((state.resetSimpleFilterState.addLogFilters ids valid).rebuildFilterExpressionFromSimpleLeaves,
    loaded.filterMap fun saved => validateFilterAgainstColumns saved columns)

end FilterState

section Resolution

variable {columns : List Column}

/-- Keys resolve to the first column that has all of them. -/
theorem resolveLeafColumnByKeys_eq_some_iff {keys : List Bytes} {row : Nat} :
    resolveLeafColumnByKeys keys columns = some row ↔
      keys ≠ [] ∧ (∃ column, columns[row]? = some column ∧ keys ⊆ column.keys) ∧
        ∀ earlier < row, ∀ other, columns[earlier]? = some other → ¬ keys ⊆ other.keys := by
  -- A column has all the keys just if the list of keys lies within its own.
  have hasAll (column : Column) :
      (keys.all fun key => column.keys.contains key) = true ↔ keys ⊆ column.keys := by
    simp [List.subset_def]
  unfold resolveLeafColumnByKeys
  cases keys with
  | nil => simp
  | cons key keys =>
    simp only [List.isEmpty_cons, Bool.false_eq_true, if_false, List.findIdx?_eq_some_iff_getElem,
      hasAll]
    constructor
    · rintro ⟨bound, has, first⟩
      refine ⟨List.cons_ne_nil _ _, ⟨_, List.getElem?_eq_getElem bound, has⟩,
        fun earlier before other held => ?_⟩
      obtain ⟨inside, rfl⟩ := List.getElem?_eq_some_iff.mp held
      exact first earlier before
    · rintro ⟨-, ⟨column, held, has⟩, first⟩
      obtain ⟨bound, rfl⟩ := List.getElem?_eq_some_iff.mp held
      exact ⟨bound, has, fun earlier before => first earlier before _ (List.getElem?_eq_getElem _)⟩

/-- All keys of the column that a rule resolves to resolve to the same column: an earlier one with
all of them would have the rule's keys too. -/
theorem resolve_columnKeys {keys : List Bytes} {row : Nat} {column : Column}
    (resolved : resolveLeafColumnByKeys keys columns = some row)
    (held : columns[row]? = some column) :
    resolveLeafColumnByKeys column.keys columns = some row := by
  obtain ⟨some_, ⟨own, ownHeld, has⟩, first⟩ := resolveLeafColumnByKeys_eq_some_iff.mp resolved
  obtain rfl := Option.some.inj (held.symm.trans ownHeld)
  -- The column has all of its own keys, and an earlier one that had them would have the rule's too.
  refine resolveLeafColumnByKeys_eq_some_iff.mpr ⟨?_, ⟨column, held, List.Subset.refl _⟩, ?_⟩
  · intro empty
    rw [empty] at has
    exact some_ (List.subset_nil.mp has)
  · intro earlier before other otherHeld hasAll
    exact first earlier before other otherHeld (List.Subset.trans has hasAll)

/-- A rule is simple when it resolves to a column that it is valid for. -/
theorem isSimpleRepresentable_iff {rule : LeafRule} :
    isSimpleRepresentable columns rule = true ↔
      ∃ row column, resolveLeafColumnByKeys rule.columnKeys columns = some row ∧
        columns[row]? = some column ∧
        invalidReason rule column = none := by
  unfold isSimpleRepresentable validateFilterAgainstColumns
  -- A rule is simple exactly if its keys find a column and the check there finds nothing.
  cases resolved : resolveLeafColumnByKeys rule.columnKeys columns with
  | none => simp
  | some row =>
    cases held : columns[row]? with
    | none => simp [held]
    | some column => simp [held]

/-- Promotion keeps the column that a rule resolves to. -/
theorem resolve_promoteToColumnKeys (rule : LeafRule) :
    resolveLeafColumnByKeys (promoteToColumnKeys columns rule).columnKeys columns =
      resolveLeafColumnByKeys rule.columnKeys columns := by
  unfold promoteToColumnKeys
  -- Promoting takes over the keys of the column that was found, so it is found again.
  cases resolved : resolveLeafColumnByKeys rule.columnKeys columns with
  | none => exact resolved
  | some row =>
    simp only [Option.bind_some]
    cases held : columns[row]? with
    | none => exact resolved
    | some column => exact resolve_columnKeys resolved held

/-- Promotion changes nothing but the keys. -/
theorem promoteToColumnKeys_eq (rule : LeafRule) :
    promoteToColumnKeys columns rule =
      { rule with columnKeys := (promoteToColumnKeys columns rule).columnKeys } := by
  unfold promoteToColumnKeys
  split <;> rfl

/-- A promoted rule is valid again. -/
theorem isSimpleRepresentable_promote {rule : LeafRule}
    (simple : isSimpleRepresentable columns rule = true) :
    isSimpleRepresentable columns (promoteToColumnKeys columns rule) = true := by
  obtain ⟨row, column, resolved, held, valid⟩ := isSimpleRepresentable_iff.mp simple
  refine isSimpleRepresentable_iff.mpr ⟨row, column,
    (resolve_promoteToColumnKeys rule).trans resolved, held, ?_⟩
  rw [promoteToColumnKeys_eq]
  exact valid

end Resolution

section Meaning

variable {makeStringMatcher : Bytes → LeafRuleMatch → Bytes → Bool}
    {vformat : Bytes → LogValue → Bytes}
  {columns : List Column} {table : Option LogTable} {shown : LogTable}

/-- The leaf of a promoted rule accepts the rows of the rule's leaf. -/
theorem accepts_promote (rule : LeafRule) (row : Nat) :
    accepts makeStringMatcher vformat columns table shown
      (.leaf (promoteToColumnKeys columns rule)) row =
      accepts makeStringMatcher vformat columns table shown (.leaf rule) row := by
  have resolved := @resolve_promoteToColumnKeys columns rule
  -- The predicate goes by the resolved column and by the fields that promotion keeps.
  have compiled : ∀ resolvedColumn,
      compileLeaf makeStringMatcher (promoteToColumnKeys columns rule) resolvedColumn
        columns table =
        compileLeaf makeStringMatcher rule resolvedColumn columns table := by
    intro resolvedColumn
    rw [promoteToColumnKeys_eq]
    rfl
  simp only [accepts, truthOf, resolved, compiled]

/-- A wrapped leaf accepts the rows of the leaf. -/
theorem accepts_keepAsAdvanced (node : FilterExpression) (row : Nat) :
    accepts makeStringMatcher vformat columns table shown (keepAsAdvanced node) row =
      accepts makeStringMatcher vformat columns table shown node row := by
  unfold keepAsAdvanced
  split
  · rw [accepts_and, List.all_cons, List.all_nil, Bool.and_true]
  · rfl

/-- What is kept is never a bare leaf. -/
theorem isLeaf_keepAsAdvanced (node : FilterExpression) : (keepAsAdvanced node).isLeaf = false := by
  unfold keepAsAdvanced
  split
  · rfl
  · rename_i other
    exact Bool.eq_false_iff.mpr other

/-- Trees taken apart: what is extracted is valid, no leaf is left in the remainder, and together
they accept what the trees accept. -/
structure SplitFilter.Splits (makeStringMatcher : Bytes → LeafRuleMatch → Bytes → Bool)
    (vformat : Bytes → LogValue → Bytes) (columns : List Column) (table : Option LogTable)
    (shown : LogTable)
    (split : SplitFilter) (trees : List FilterExpression) : Prop where
  valid : ∀ rule ∈ split.extractedLeaves, isSimpleRepresentable columns rule = true
  noLeaf : ∀ tree ∈ split.rest, tree.isLeaf = false
  means : ∀ row, ((split.extractedLeaves.map FilterExpression.leaf ++ split.rest).all fun tree =>
      accepts makeStringMatcher vformat columns table shown tree row) =
    trees.all fun tree => accepts makeStringMatcher vformat columns table shown tree row

/-- Nothing is taken apart yet. -/
theorem SplitFilter.Splits.nil :
    (⟨[], []⟩ : SplitFilter).Splits makeStringMatcher vformat columns table shown [] :=
  ⟨by simp, by simp, fun _ => rfl⟩

/-- A tree goes to the remainder. -/
theorem SplitFilter.Splits.keep {split : SplitFilter} {trees : List FilterExpression}
    (splits : split.Splits makeStringMatcher vformat columns table shown trees)
    (child : FilterExpression) :
    SplitFilter.Splits makeStringMatcher vformat columns table shown
      { split with rest := split.rest ++ [keepAsAdvanced child] } (trees ++ [child]) := by
  refine ⟨splits.valid, ?_, fun row => ?_⟩
  · -- What is kept as it is counts as advanced, also where it is a leaf.
    intro tree member
    obtain early | last := List.mem_append.mp member
    · exact splits.noLeaf tree early
    · rw [List.mem_singleton.mp last]
      exact isLeaf_keepAsAdvanced child
  · have means := splits.means row
    rw [← List.append_assoc, List.all_append, means, List.all_append]
    simp only [List.all_cons, List.all_nil, Bool.and_true, accepts_keepAsAdvanced]

/-- A valid leaf goes to the simple leaves. -/
theorem SplitFilter.Splits.extract {split : SplitFilter} {trees : List FilterExpression}
    (splits : split.Splits makeStringMatcher vformat columns table shown trees) {rule : LeafRule}
    (simple : isSimpleRepresentable columns rule = true) :
    SplitFilter.Splits makeStringMatcher vformat columns table shown
      { split with extractedLeaves := split.extractedLeaves ++ [promoteToColumnKeys columns rule] }
      (trees ++ [.leaf rule]) := by
  -- The new leaf is a simple one, and its tree accepts what it accepts.
  refine ⟨?_, splits.noLeaf, fun row => ?_⟩
  · intro other member
    obtain early | last := List.mem_append.mp member
    · exact splits.valid other early
    · rw [List.mem_singleton.mp last]
      exact isSimpleRepresentable_promote simple
  · have means := splits.means row
    rw [List.all_append] at means
    simp only [List.map_append, List.map_cons, List.map_nil, List.all_append, List.all_cons,
      List.all_nil,
      Bool.and_true, accepts_promote, ← means]
    exact Bool.and_right_comm _ _ _

/-- One more tree. -/
theorem SplitFilter.Splits.add {split : SplitFilter} {trees : List FilterExpression}
    (splits : split.Splits makeStringMatcher vformat columns table shown trees)
    (child : FilterExpression) :
    (SplitFilter.add columns split child).Splits makeStringMatcher vformat columns table shown
      (trees ++ [child]) := by
  unfold SplitFilter.add
  -- Only a simple leaf is extracted.
  split
  · rename_i rule
    split
    · rename_i simple
      exact splits.extract simple
    · exact splits.keep _
  · exact splits.keep child

/-- All children of a conjunction, one after the other. -/
theorem SplitFilter.Splits.foldl {split : SplitFilter} {trees : List FilterExpression}
    (splits : split.Splits makeStringMatcher vformat columns table shown trees)
    (children : List FilterExpression) :
    (children.foldl (SplitFilter.add columns) split).Splits makeStringMatcher vformat columns
      table shown
      (trees ++ children) := by
  -- Child by child; each is extracted or kept.
  induction children generalizing split trees with
  | nil =>
    rw [List.append_nil]
    exact splits
  | cons child rest ih =>
    rw [List.foldl_cons, List.append_cons]
    exact ih (splits.add child)

/-- The conjunction of the parts accepts what the tree accepts. -/
theorem splitAdvancedFilter_splits (result : FilterExpression) :
    ∃ trees, (splitAdvancedFilter columns result).Splits makeStringMatcher vformat columns table
      shown trees ∧
      ∀ row, (trees.all fun tree =>
        accepts makeStringMatcher vformat columns table shown tree row) =
        accepts makeStringMatcher vformat columns table shown result row := by
  have alone (other : FilterExpression) (row : Nat) :
      ([other].all fun tree => accepts makeStringMatcher vformat columns table shown tree row) =
        accepts makeStringMatcher vformat columns table shown other row := by
    rw [List.all_cons, List.all_nil, Bool.and_true]
  -- A conjunction is taken apart; every other tree stands alone.
  cases result with
  | and children =>
    exact ⟨children, SplitFilter.Splits.nil.foldl children, fun row =>
      (accepts_and children row).symm⟩
  | leaf rule => exact ⟨[.leaf rule], SplitFilter.Splits.nil.add (.leaf rule), alone _⟩
  | or children => exact ⟨[.or children], SplitFilter.Splits.nil.add (.or children), alone _⟩
  | not child? => exact ⟨[.not child?], SplitFilter.Splits.nil.add (.not child?), alone _⟩

end Meaning

namespace FilterState

/-- A filter under a new id comes last. -/
theorem orderedLeaves_addLogFilter {state : FilterState} {id : Bytes}
    (fresh : id ∉ state.simpleLeafOrder)
    (filter : LeafRule) :
    (state.addLogFilter id filter).orderedLeaves = state.orderedLeaves ++ [filter] := by
  -- A fresh id goes to the end of the order.
  have order : (state.addLogFilter id filter).simpleLeafOrder = state.simpleLeafOrder ++ [id] := by
    simp only [addLogFilter, List.contains_eq_mem, fresh, decide_false,
      Bool.false_eq_true, if_false]
  -- The filters that were there keep theirs, as the new id is none of them.
  have old : state.simpleLeafOrder.filterMap (state.simpleLeaves.put id filter).find =
      state.orderedLeaves := by
    refine List.filterMap_congr fun other listed => ?_
    have differs : other ≠ id := fun same => fresh (same ▸ listed)
    rw [KeyedList.find_put, if_neg differs]
  have new : (state.simpleLeaves.put id filter).find id = some filter := by
    rw [KeyedList.find_put, if_pos rfl]
  unfold orderedLeaves at old ⊢
  rw [order, List.filterMap_append]
  exact congrArg₂ _ old (by rw [List.filterMap_cons, addLogFilter, new, List.filterMap_nil])

/-- Filters under new ids come last, in their order. -/
theorem orderedLeaves_addLogFilters {state : FilterState} {ids : List Bytes}
    {filters : List LeafRule}
    (distinct : ids.Nodup) (fresh : ∀ id ∈ ids, id ∉ state.simpleLeafOrder)
    (enough : filters.length ≤ ids.length) :
    (state.addLogFilters ids filters).orderedLeaves = state.orderedLeaves ++ filters := by
  induction ids generalizing state filters with
  | nil =>
    rw [List.length_eq_zero_iff.mp (Nat.le_zero.mp enough), List.append_nil]
    rfl
  | cons id ids ih =>
    cases filters with
    | nil =>
      rw [List.append_nil]
      rfl
    | cons filter filters =>
      have idFresh := fresh id List.mem_cons_self
      obtain ⟨notLater, later⟩ := List.nodup_cons.mp distinct
      have order : (state.addLogFilter id filter).simpleLeafOrder =
          state.simpleLeafOrder ++ [id] := by
        simp only [addLogFilter, List.contains_eq_mem, idFresh, decide_false,
          Bool.false_eq_true, if_false]
      -- The other ids are not yet in the order, and are not the id just added.
      have stillFresh : ∀ other ∈ ids, other ∉ (state.addLogFilter id filter).simpleLeafOrder := by
        intro other listed held
        rw [order] at held
        obtain early | last := List.mem_append.mp held
        · exact fresh other (List.mem_cons_of_mem id listed) early
        · exact notLater (List.mem_singleton.mp last ▸ listed)
      have added := ih later stillFresh (Nat.le_of_succ_le_succ enough)
      rw [orderedLeaves_addLogFilter idFresh, List.append_assoc] at added
      exact added

/-- Adding filters leaves the expression to the mirror. -/
theorem expression_addLogFilters (state : FilterState) (ids : List Bytes)
    (filters : List LeafRule) :
    (state.addLogFilters ids filters).expression = state.expression := by
  unfold addLogFilters
  induction ids.zip filters generalizing state with
  | nil => rfl
  | cons entry rest ih => exact ih (state.addLogFilter entry.1 entry.2)

/-- A state whose expression shows the simple leaves, followed by trees that are no leaves. -/
structure Shows (state : FilterState) (leaves : List LeafRule)
    (rest : List FilterExpression) : Prop where
  ordered : state.orderedLeaves = leaves
  expression : state.expression = .and (leaves.map .leaf ++ rest)

/-- Filters added to a state without any are shown by the mirror, before the trees of its expression
that are no leaves. -/
theorem shows_rebuild {state : FilterState} {ids : List Bytes} {filters : List LeafRule}
    {children : List FilterExpression} (conjunction : state.expression = .and children)
    (distinct : ids.Nodup)
    (enough : filters.length ≤ ids.length) :
    (state.resetSimpleFilterState.addLogFilters ids
      filters).rebuildFilterExpressionFromSimpleLeaves.Shows filters
      (children.filter fun child => !child.isLeaf) := by
  -- The leaves come back in the order in which they were added.
  have ordered : (state.resetSimpleFilterState.addLogFilters ids filters).orderedLeaves = filters :=
    orderedLeaves_addLogFilters distinct (fun _ _ => List.not_mem_nil) enough
  have shape : (state.resetSimpleFilterState.addLogFilters ids filters).expression =
      .and children := by
    rw [expression_addLogFilters]
    exact conjunction
  refine ⟨ordered, ?_⟩
  unfold rebuildFilterExpressionFromSimpleLeaves preserved
  simp only [ordered, shape]

/-- A mirror changes nothing of it. -/
theorem Shows.rebuild {state : FilterState} {leaves : List LeafRule} {rest : List FilterExpression}
    (showing : state.Shows leaves rest) (noLeaf : ∀ tree ∈ rest, tree.isLeaf = false) :
    state.rebuildFilterExpressionFromSimpleLeaves = state := by
  -- Everything but the mirrored leaves is kept by the rebuild.
  have kept : state.preserved = rest := by
    rw [preserved, showing.expression]
    simp only [filter_leaves_append, List.filter_eq_self]
    intro tree member
    rw [noLeaf tree member]
    rfl
  unfold rebuildFilterExpressionFromSimpleLeaves
  rw [kept, showing.ordered, ← showing.expression]

/-- Nor does any number of mirrors. -/
theorem Shows.iterate {state : FilterState} {leaves : List LeafRule} {rest : List FilterExpression}
    (showing : state.Shows leaves rest) (noLeaf : ∀ tree ∈ rest, tree.isLeaf = false)
    (mirrors : Nat) :
    rebuildFilterExpressionFromSimpleLeaves^[mirrors] state = state :=
  Function.iterate_fixed (showing.rebuild noLeaf) mirrors

/-- The leaves that are loaded from such an expression are the simple ones. -/
theorem loadedFilters_leaves (leaves : List LeafRule) {rest : List FilterExpression}
    (noLeaf : ∀ tree ∈ rest, tree.isLeaf = false) :
    loadedFilters (.and (leaves.map .leaf ++ rest)) = leaves := by
  -- No tree of the rest is a leaf.
  have none_ : rest.filterMap leafRule? = [] := by
    rw [List.filterMap_eq_nil_iff]
    intro tree member
    have other := noLeaf tree member
    cases tree with
    | leaf rule => cases other
    | and children => rfl
    | or children => rfl
    | not child? => rfl
  have all_ : (leaves.map FilterExpression.leaf).filterMap leafRule? = leaves := by
    rw [List.filterMap_map]
    exact List.filterMap_some
  rw [loadedFilters, List.filterMap_append, none_, all_, List.append_nil]

/-- Valid rules are all loaded again, and the expression shows them as before. -/
theorem shows_rebuildFilters {columns : List Column} {state : FilterState} {ids : List Bytes}
    {leaves : List LeafRule} {rest : List FilterExpression}
    (expression : state.expression = .and (leaves.map .leaf ++ rest))
    (noLeaf : ∀ tree ∈ rest, tree.isLeaf = false)
    (valid : ∀ rule ∈ leaves, isSimpleRepresentable columns rule = true) (distinct : ids.Nodup)
    (enough : leaves.length ≤ ids.length) :
    (rebuildFiltersFromConfiguration columns ids state).1.Shows leaves rest ∧
      (rebuildFiltersFromConfiguration columns ids state).2 = [] := by
  -- Every leaf is loaded, and each is one that the dialog can show.
  have loaded : loadedFilters state.expression = leaves := by
    rw [expression]
    exact loadedFilters_leaves leaves noLeaf
  have kept : (leaves.filter fun saved => isSimpleRepresentable columns saved) = leaves :=
    List.filter_eq_self.mpr valid
  unfold rebuildFiltersFromConfiguration
  simp only [loaded, kept]
  constructor
  · have shown := shows_rebuild expression distinct enough
    rw [filter_leaves_append, List.filter_eq_self.mpr fun tree member =>
      by rw [noLeaf tree member]; rfl] at shown
    exact shown
  · rw [List.filterMap_eq_nil_iff]
    intro rule member
    exact Option.isNone_iff_eq_none.mp (valid rule member)

/-- Applying a tree shows its valid leaves, and then the remainder. -/
theorem shows_applyAdvancedFilterResult {columns : List Column} {ids : List Bytes}
    {result : FilterExpression}
    {earlier : FilterState} (noLeaf : ∀ tree ∈ (splitAdvancedFilter columns result).rest,
    tree.isLeaf = false)
    (distinct : ids.Nodup) (enough : (splitAdvancedFilter columns result).extractedLeaves.length ≤
    ids.length) :
    (applyAdvancedFilterResult columns ids result earlier).Shows
      (splitAdvancedFilter columns result).extractedLeaves
        (splitAdvancedFilter columns result).rest := by
  let remainder := { earlier with expression := .and (splitAdvancedFilter columns result).rest }
  have shown := @shows_rebuild remainder ids _ _ rfl distinct enough
  -- None of the trees is a leaf, so the rebuild keeps them all.
  have kept : ((splitAdvancedFilter columns result).rest.filter fun child => !child.isLeaf) =
      (splitAdvancedFilter columns result).rest := by
    rw [List.filter_eq_self]
    intro tree member
    rw [noLeaf tree member]
    rfl
  rw [kept] at shown
  exact shown

end FilterState

/-- Over the same columns, two trees compile to filters that accept the same rows of every table. -/
def AcceptSameRows (columns : List Column) (first second : FilterExpression) : Prop :=
  ∀ (makeStringMatcher : Bytes → LeafRuleMatch → Bytes → Bool) (vformat : Bytes → LogValue → Bytes)
    (cheapFirst : CheapFirstSort) (table : Option LogTable) (shown : LogTable) (row : Nat),
    evaluateExpression vformat
      (compileExpression makeStringMatcher cheapFirst columns table first).predicates shown
        row (compileExpression makeStringMatcher cheapFirst columns table first).node =
      evaluateExpression vformat
        (compileExpression makeStringMatcher cheapFirst columns table second).predicates
        shown row (compileExpression makeStringMatcher cheapFirst columns table second).node

/-- The parts of a tree accept the rows of the tree. -/
theorem splitAdvancedFilter_acceptSameRows (columns : List Column) (result : FilterExpression) :
    AcceptSameRows columns
      (.and ((splitAdvancedFilter columns result).extractedLeaves.map .leaf ++
        (splitAdvancedFilter columns result).rest)) result := by
  intro makeStringMatcher vformat cheapFirst table shown row
  obtain ⟨trees, splits, means⟩ :=
    @splitAdvancedFilter_splits makeStringMatcher vformat columns table shown result
  rw [evaluate_compileExpression, evaluate_compileExpression, accepts_and,
    splits.means row, means row]

/-- Applying an advanced filter keeps its meaning: whatever the filters were before, the
expression accepts the rows of the tree, also after any number of mirrors; and when it is loaded
again over the same columns, no rule is dropped and the rows are still the same, again after any
number of mirrors. -/
theorem applyAdvancedFilterResult_acceptSameRows (columns : List Column) (tree : FilterExpression)
    (earlier : FilterState) (ids : List Bytes) (distinct : ids.Nodup)
    (enough : (splitAdvancedFilter columns tree).extractedLeaves.length ≤ ids.length)
    (mirrors : Nat) :
    let applied := FilterState.rebuildFilterExpressionFromSimpleLeaves^[mirrors]
      (FilterState.applyAdvancedFilterResult columns ids tree earlier)
    AcceptSameRows columns applied.expression tree ∧
      ∀ (loading : FilterState) (newIds : List Bytes), loading.expression = applied.expression →
        newIds.Nodup →
        (FilterState.loadedFilters loading.expression).length ≤ newIds.length →
        (FilterState.rebuildFiltersFromConfiguration columns newIds loading).2 = [] ∧
          ∀ further, AcceptSameRows columns
            (FilterState.rebuildFilterExpressionFromSimpleLeaves^[further]
              (FilterState.rebuildFiltersFromConfiguration columns newIds loading).1).expression
                tree := by
  obtain ⟨_, splits, -⟩ :=
    @splitAdvancedFilter_splits (fun _ _ _ => false) (fun _ _ => []) columns none
      (.initial ⟨[], ⟨-1, false⟩⟩) tree
  have sameRows := splitAdvancedFilter_acceptSameRows columns tree
  have shown := @FilterState.shows_applyAdvancedFilterResult columns ids tree earlier splits.noLeaf
    distinct enough
  intro applied
  have stable : applied = FilterState.applyAdvancedFilterResult columns ids tree earlier :=
    shown.iterate splits.noLeaf mirrors
  have expression : applied.expression =
    .and ((splitAdvancedFilter columns tree).extractedLeaves.map .leaf ++
      (splitAdvancedFilter columns tree).rest) := by
    rw [stable]
    exact shown.expression
  refine ⟨expression ▸ sameRows, fun loading newIds same newDistinct newEnough => ?_⟩
  -- What is loaded are the extracted leaves, and promotion kept them valid.
  rw [same, expression, FilterState.loadedFilters_leaves _ splits.noLeaf] at newEnough
  obtain ⟨reshown, dropped⟩ :=
    FilterState.shows_rebuildFilters (same.trans expression) splits.noLeaf splits.valid
    newDistinct newEnough
  refine ⟨dropped, fun further => ?_⟩
  rw [reshown.iterate splits.noLeaf further, reshown.expression]
  exact sameRows

/-- The text of a UUID. -/
def firstFilterId : Bytes := bytes "\x7b7d0f4f6e-0d39-4d4e-8a35-6a7be3d1c001\x7d"

/-- A level column with an alias. -/
def aliasedColumns : List Column := [{ levelColumn with keys := [bytes "lvl", bytes "level"] }]

/-- A rule for the level `Info` next to a tree that is no leaf. -/
def aliasedTree : FilterExpression := .and [.leaf infoRule, .not (some (.leaf infoRule))]

/-- The leaf is bound to both keys of the column and the negation stays advanced, with the
same rows. -/
theorem aliasedTree_acceptSameRows :
    [firstFilterId].Nodup ∧
      (splitAdvancedFilter aliasedColumns aliasedTree).extractedLeaves =
        [{ infoRule with columnKeys := [bytes "lvl", bytes "level"] }] ∧
      AcceptSameRows aliasedColumns
        (FilterState.applyAdvancedFilterResult aliasedColumns [firstFilterId] aliasedTree
          FilterState.loadedLeaf).expression aliasedTree := by
  have distinct : [firstFilterId].Nodup := List.nodup_singleton _
  -- The rule names one alias, and is promoted to both.
  have extracted : (splitAdvancedFilter aliasedColumns aliasedTree).extractedLeaves =
      [{ infoRule with columnKeys := [bytes "lvl", bytes "level"] }] := by decide
  refine ⟨distinct, extracted, ?_⟩
  exact (applyAdvancedFilterResult_acceptSameRows aliasedColumns aliasedTree FilterState.loadedLeaf
    [firstFilterId]
    distinct (by rw [extracted]; decide) 0).1

end Loglib
