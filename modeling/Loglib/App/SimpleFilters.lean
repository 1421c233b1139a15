import Loglib.App.LeafRuleCompile
import Loglib.Basic.KeyedList

/-! The simple filters of a session, and the filter tree that is rebuilt from them. -/

namespace Loglib

/-- The `==` of `double`: a NaN differs from everything, and the two zeros are the same. -/
def Double.equals (first second : Double) : Bool :=
  !first.isNaN && !second.isNaN && first.order == second.order

/-- The `==` of two optional bounds. -/
def sameBound : Option Double → Option Double → Bool
  | none, none => true
  | some first, some second => first.equals second
  | none, some _ => false
  | some _, none => false

/-- The defaulted `==` of `LeafRule`, field by field. -/
def LeafRule.equals (first second : LeafRule) : Bool :=
  first.type == second.type && first.columnKeys == second.columnKeys && first.matchType ==
    second.matchType &&
    first.filterString == second.filterString && first.filterBegin == second.filterBegin &&
    first.filterEnd == second.filterEnd && sameBound first.filterMinValue second.filterMinValue &&
    sameBound first.filterMaxValue second.filterMaxValue && first.filterValues ==
      second.filterValues

/-- The tree is one leaf. -/
def FilterExpression.isLeaf : FilterExpression → Bool
  | .leaf _ => true
  | _ => false

/-- The filters of a session: the simple ones by id with their order, and the configuration's
expression. -/
structure FilterState where
  simpleLeaves : KeyedList Bytes LeafRule
  simpleLeafOrder : List Bytes
  expression : FilterExpression

namespace FilterState

/-- The simple leaves in their order. An id without a leaf is passed over. -/
def orderedLeaves (state : FilterState) : List LeafRule :=
  state.simpleLeafOrder.filterMap state.simpleLeaves.find

/-- The rule is that of some simple leaf. -/
def reflects (state : FilterState) (rule : LeafRule) : Bool :=
  state.simpleLeaves.entries.any fun entry => entry.2.equals rule

/-- What the old expression contributes to the new one. -/
def preserved (state : FilterState) : List FilterExpression :=
  match state.expression with
  | .and children => children.filter fun child => !child.isLeaf
  | .or children => [.or children]
  | .not child => [.not child]
  | .leaf rule => if state.reflects rule then [] else [.leaf rule]

/-- `RebuildFilterExpressionFromSimpleLeaves`. -/
def rebuildFilterExpressionFromSimpleLeaves (state : FilterState) : FilterState :=
  { state with expression := .and (state.orderedLeaves.map .leaf ++ state.preserved) }

/-- `ResetSimpleFilterState`. -/
def resetSimpleFilterState (state : FilterState) : FilterState :=
  { state with simpleLeaves := .empty, simpleLeafOrder := [] }

/-- `AddLogFilter` with the mirror put off. -/
def addLogFilter (state : FilterState) (id : Bytes) (filter : LeafRule) : FilterState :=
  { state with
    simpleLeafOrder :=
      if state.simpleLeafOrder.contains id then state.simpleLeafOrder
        else state.simpleLeafOrder ++ [id]
    simpleLeaves := state.simpleLeaves.put id filter }

/-- Rebuilding replaces nothing but the expression. -/
@[simp] theorem orderedLeaves_rebuild (state : FilterState) :
    state.rebuildFilterExpressionFromSimpleLeaves.orderedLeaves = state.orderedLeaves := rfl

/-- A rule is reflected when the leaf of some id equals it. -/
theorem reflects_iff (state : FilterState) (rule : LeafRule) :
    state.reflects rule = true ↔ ∃ id other, state.simpleLeaves.find id = some other ∧
      other.equals rule = true := by
  unfold reflects
  rw [List.any_eq_true]
  -- A rule is reflected by a stored leaf that equals it.
  constructor
  · rintro ⟨⟨id, other⟩, listed, same⟩
    exact ⟨id, other, KeyedList.mem_entries_iff.mp listed, same⟩
  · rintro ⟨id, other, found, same⟩
    exact ⟨(id, other), KeyedList.mem_entries_iff.mpr found, same⟩

/-- Among leaves and other trees, the other trees are those that are not leaves. -/
theorem filter_leaves_append (rules : List LeafRule) (others : List FilterExpression) :
    ((rules.map FilterExpression.leaf ++ others).filter fun child => !child.isLeaf) =
      others.filter fun child => !child.isLeaf := by
  have none_ : ((rules.map FilterExpression.leaf).filter fun child => !child.isLeaf) = [] := by
    simp [FilterExpression.isLeaf]
  rw [List.filter_append, none_, List.nil_append]

/-- Rebuilding again keeps what was preserved and is no leaf. -/
theorem preserved_rebuild (state : FilterState) :
    state.rebuildFilterExpressionFromSimpleLeaves.preserved = state.preserved.filter fun child =>
      !child.isLeaf := by
  exact filter_leaves_append _ _

/-- Where no leaf was preserved, rebuilding again changes nothing. -/
theorem rebuild_rebuild {state : FilterState}
    (noLeaf : ∀ child ∈ state.preserved, child.isLeaf = false) :
    state.rebuildFilterExpressionFromSimpleLeaves.rebuildFilterExpressionFromSimpleLeaves =
      state.rebuildFilterExpressionFromSimpleLeaves := by
  -- The second rebuild keeps the same trees as the first.
  have kept : state.rebuildFilterExpressionFromSimpleLeaves.preserved = state.preserved := by
    rw [preserved_rebuild, List.filter_eq_self]
    intro child member
    rw [noLeaf child member]
    rfl
  unfold rebuildFilterExpressionFromSimpleLeaves at kept ⊢
  rw [kept]
  rfl

/-- Nor does it after any number of further calls. -/
theorem rebuild_iterate {state : FilterState}
    (noLeaf : ∀ child ∈ state.preserved, child.isLeaf = false)
    (calls : Nat) :
    rebuildFilterExpressionFromSimpleLeaves^[calls + 1] state =
      state.rebuildFilterExpressionFromSimpleLeaves := by
  induction calls with
  | zero => rfl
  | succ calls ih =>
    rw [Function.iterate_succ_apply', ih]
    exact rebuild_rebuild noLeaf

/-- A leaf that is the whole expression is preserved where no simple leaf equals it. -/
def HasUnreflectedLeaf (state : FilterState) : Prop :=
  ∃ rule, state.expression = .leaf rule ∧ state.reflects rule = false

/-- Any other expression preserves no leaf. -/
theorem preserved_noLeaf {state : FilterState} (reflected : ¬ state.HasUnreflectedLeaf) :
    ∀ child ∈ state.preserved, child.isLeaf = false := by
  intro child member
  unfold preserved at member
  cases shape : state.expression with
  | and children =>
    rw [shape] at member
    simpa using (List.mem_filter.mp member).2
  | or children =>
    rw [shape] at member
    rw [List.mem_singleton.mp member]
    rfl
  | not child? =>
    rw [shape] at member
    rw [List.mem_singleton.mp member]
    rfl
  | leaf rule =>
    rw [shape] at member
    simp only at member
    -- The leaf would have to be unreflected.
    split at member
    · cases member
    · rename_i absent
      exact absurd ⟨rule, shape, by simpa using absent⟩ reflected

/-- What is kept of an old expression: the trees of a conjunction that are no leaves, a disjunction
or a negation as a whole, and a leaf unless some simple leaf equals it. -/
structure KeepsSubtrees (state : FilterState) (kept : List FilterExpression) : Prop where
  conjunction : ∀ children, state.expression = .and children → kept = children.filter fun child =>
    !child.isLeaf
  disjunction : ∀ children, state.expression = .or children → kept = [state.expression]
  negation : ∀ child?, state.expression = .not child? → kept = [state.expression]
  newLeaf : ∀ rule, state.expression = .leaf rule →
    (∀ id other, state.simpleLeaves.find id = some other → other.equals rule = false) →
      kept = [state.expression]
  knownLeaf : ∀ rule id other, state.expression = .leaf rule →
    state.simpleLeaves.find id = some other →
    other.equals rule = true → kept = []

/-- This is what is preserved. -/
theorem keepsSubtrees_preserved (state : FilterState) : state.KeepsSubtrees state.preserved where
  conjunction children shape := by rw [preserved, shape]
  disjunction children shape := by rw [preserved, shape]
  negation child? shape := by rw [preserved, shape]
  newLeaf rule shape differs := by
    -- A leaf that no filter shows is kept with the trees.
    have absent : state.reflects rule = false := by
      rw [Bool.eq_false_iff, ne_eq, reflects_iff]
      rintro ⟨id, other, found, same⟩
      rw [differs id other found] at same
      cases same
    rw [preserved, shape]
    simp only [absent, Bool.false_eq_true, if_false]
  knownLeaf rule id other shape found same := by
    -- One that a filter shows comes from the filters.
    have known : state.reflects rule = true :=
      (reflects_iff state rule).mpr ⟨id, other, found, same⟩
    rw [preserved, shape]
    simp only [known, if_true]

/-- A leaf that was preserved for being new is dropped by the next call. -/
theorem rebuild_rebuild_ne {state : FilterState} (unreflected : state.HasUnreflectedLeaf) :
    state.rebuildFilterExpressionFromSimpleLeaves.rebuildFilterExpressionFromSimpleLeaves ≠
      state.rebuildFilterExpressionFromSimpleLeaves := by
  obtain ⟨rule, shape, absent⟩ := unreflected
  have first : state.preserved = [.leaf rule] := by
    rw [preserved, shape]
    simp only [absent, Bool.false_eq_true, if_false]
  have second : state.rebuildFilterExpressionFromSimpleLeaves.preserved = [] := by
    rw [preserved_rebuild, first]
    rfl
  intro same
  -- The first call ends with the leaf, and the second with the simple leaves.
  have lists : state.orderedLeaves.map FilterExpression.leaf ++
        state.rebuildFilterExpressionFromSimpleLeaves.preserved =
      state.orderedLeaves.map FilterExpression.leaf ++ state.preserved :=
    FilterExpression.and.inj (congrArg FilterState.expression same)
  rw [second, first] at lists
  exact absurd (List.append_cancel_left lists) (List.cons_ne_nil _ _).symm

/-- Rebuilding gives the simple leaves and what is kept, and further calls change nothing, exactly
when the expression is not a leaf that every simple leaf differs from. -/
theorem rebuild_stable_iff (state : FilterState) :
    ((∃ kept, state.KeepsSubtrees kept ∧
        state.rebuildFilterExpressionFromSimpleLeaves.expression =
          .and (state.orderedLeaves.map .leaf ++ kept)) ∧
      ∀ calls, rebuildFilterExpressionFromSimpleLeaves^[calls + 1] state =
        state.rebuildFilterExpressionFromSimpleLeaves) ↔
      ¬ state.HasUnreflectedLeaf := by
  constructor
  · rintro ⟨-, stable⟩ unreflected
    exact rebuild_rebuild_ne unreflected (stable 1)
  · intro reflected
    exact ⟨⟨state.preserved, keepsSubtrees_preserved state, rfl⟩,
      rebuild_iterate (preserved_noLeaf reflected)⟩

/-- A loaded filter for levels, before any simple leaf. -/
def loadedLeaf : FilterState := ⟨.empty, [], .leaf infoRule⟩

/-- The first call preserves it, and the second drops it. -/
theorem loadedLeaf_dropped :
    loadedLeaf.rebuildFilterExpressionFromSimpleLeaves.expression = .and [.leaf infoRule] ∧
      loadedLeaf.rebuildFilterExpressionFromSimpleLeaves.rebuildFilterExpressionFromSimpleLeaves.expression =
        .and [] ∧
      ¬ ∀ calls, rebuildFilterExpressionFromSimpleLeaves^[calls + 1] loadedLeaf =
        loadedLeaf.rebuildFilterExpressionFromSimpleLeaves := by
  refine ⟨rfl, rfl, fun stable => ?_⟩
  have expressions := FilterExpression.and.inj (congrArg FilterState.expression (stable 1))
  exact absurd expressions (List.cons_ne_nil _ _).symm

end FilterState

end Loglib
