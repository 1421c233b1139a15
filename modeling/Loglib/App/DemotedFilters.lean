import Loglib.App.LevelDemotion
import Loglib.App.StreamedLayout

/-! Filters on a level column that is demoted: which leaves accept the same rows before and after,
and which filters do. -/

namespace Loglib

namespace FilterExpression

mutual

/-- The leaves of a tree. -/
def leaves : FilterExpression → List LeafRule
  | .leaf rule => [rule]
  | .and children => leavesOf children
  | .or children => leavesOf children
  | .not none => []
  | .not (some child) => leaves child

/-- The leaves of several trees. -/
def leavesOf : List FilterExpression → List LeafRule
  | [] => []
  | child :: rest => leaves child ++ leavesOf rest

end

/-- The leaves of a child are leaves of its parent. -/
theorem leaves_subset_of_mem {child : FilterExpression} {children : List FilterExpression}
    (member : child ∈ children) :
    child.leaves ⊆ leavesOf children := by
  -- The leaves of a child are somewhere in the list of all.
  induction children with
  | nil => cases member
  | cons head rest ih =>
    rw [leavesOf]
    rcases List.mem_cons.mp member with rfl | later
    · exact List.subset_append_left _ _
    · exact List.Subset.trans (ih later) (List.subset_append_right _ _)

end FilterExpression

section Truths

variable (makeStringMatcher : Bytes → LeafRuleMatch → Bytes → Bool)
    (vformat : Bytes → LogValue → Bytes)

/-- What a tree says about a row of a table; `none` where it is absent. -/
def treeTruth (table : LogTable) (expression : FilterExpression) (row : Nat) : Option Bool :=
  (truthOf makeStringMatcher vformat table.columns (some table) table expression).map fun truth =>
    truth row

/-- What a leaf says about a row of a table; `none` where it is inert. -/
abbrev leafTruth (table : LogTable) (rule : LeafRule) (row : Nat) : Option Bool :=
  treeTruth makeStringMatcher vformat table (.leaf rule) row

/-- The row is accepted by the expression, compiled against the table. -/
abbrev acceptsRow (table : LogTable) (expression : FilterExpression) (row : Nat) : Bool :=
  accepts makeStringMatcher vformat table.columns (some table) table expression row

variable {makeStringMatcher vformat} {old new : LogTable} {row later : Nat}

/-- The children that are not absent say what they say. -/
theorem truthsOf_map (table : LogTable) (children : List FilterExpression) (row : Nat) :
    ((truthsOf makeStringMatcher vformat table.columns (some table) table children).map fun truth =>
      truth row) =
      children.filterMap fun child => treeTruth makeStringMatcher vformat table child row := by
  induction children with
  | nil => rfl
  | cons child rest ih =>
    rw [truthsOf, List.map_append, ih, List.filterMap_cons, treeTruth]
    cases truthOf makeStringMatcher vformat table.columns (some table) table child <;> rfl

/-- Trees with the same leaves say the same where the leaves do. -/
theorem treeTruth_congr (expression : FilterExpression)
    (same : ∀ rule ∈ expression.leaves,
      leafTruth makeStringMatcher vformat new rule later = leafTruth makeStringMatcher vformat old
        rule row) :
    treeTruth makeStringMatcher vformat new expression later = treeTruth makeStringMatcher vformat
      old expression row := by
  -- The induction is on the tree; a node says what its children say.
  induction expression with
  | leaf rule => exact same rule (List.mem_singleton_self rule)
  | and children each =>
    have said : children.filterMap (fun child =>
      treeTruth makeStringMatcher vformat new child later) =
        children.filterMap fun child => treeTruth makeStringMatcher vformat old child row :=
      List.filterMap_congr fun child member =>
        each child member fun rule listed =>
          same rule (FilterExpression.leaves_subset_of_mem member listed)
    rw [← truthsOf_map, ← truthsOf_map] at said
    have empty := congrArg List.isEmpty said
    have all := congrArg (List.all · id) said
    rw [List.isEmpty_map, List.isEmpty_map] at empty
    simp only [List.all_map] at all
    unfold treeTruth truthOf
    simp only [empty]
    split
    · rfl
    · exact congrArg some all
  | or children each =>
    have said : children.filterMap (fun child =>
      treeTruth makeStringMatcher vformat new child later) =
        children.filterMap fun child => treeTruth makeStringMatcher vformat old child row :=
      List.filterMap_congr fun child member =>
        each child member fun rule listed =>
          same rule (FilterExpression.leaves_subset_of_mem member listed)
    rw [← truthsOf_map, ← truthsOf_map] at said
    have empty := congrArg List.isEmpty said
    have any := congrArg (List.any · id) said
    rw [List.isEmpty_map, List.isEmpty_map] at empty
    simp only [List.any_map] at any
    unfold treeTruth truthOf
    simp only [empty]
    split
    · rfl
    · exact congrArg some any
  | notNone => rfl
  | notSome child own =>
    have said := own same
    unfold treeTruth at said ⊢
    unfold truthOf
    simp only [Option.map_map]
    have negated := congrArg (Option.map not) said
    simp only [Option.map_map] at negated
    exact negated

/-- A conjunction of leaves and other trees accepts what its members accept. -/
theorem acceptsRow_and (table : LogTable) (leaves : List LeafRule) (others : List FilterExpression)
    (row : Nat) :
    acceptsRow makeStringMatcher vformat table (.and (leaves.map .leaf ++ others)) row =
      ((leaves.all fun rule => (leafTruth makeStringMatcher vformat table rule row).getD true) &&
        others.all fun tree => (treeTruth makeStringMatcher vformat table tree row).getD true) := by
  unfold acceptsRow
  rw [accepts_and, List.all_append, List.all_map]
  rfl

/-- The row is accepted by the compiled expression. -/
def compiledAccepts (makeStringMatcher : Bytes → LeafRuleMatch → Bytes → Bool)
    (vformat : Bytes → LogValue → Bytes)
    (cheapFirst : CheapFirstSort) (table : LogTable) (expression : FilterExpression) (row : Nat) :
    Bool :=
  let compiled := compileExpression makeStringMatcher cheapFirst table.columns
    (some table) expression
  evaluateExpression vformat compiled.predicates table row compiled.node

/-- Whatever order the children of a tree are put in. -/
theorem compiledAccepts_eq (cheapFirst : CheapFirstSort) (table : LogTable)
    (expression : FilterExpression) (row : Nat) :
    compiledAccepts makeStringMatcher vformat cheapFirst table expression row =
      acceptsRow makeStringMatcher vformat table expression row :=
  evaluate_compileExpression expression row

/-- A filter of one leaf accepts what the leaf does not reject. -/
theorem acceptsRow_leaf (table : LogTable) (rule : LeafRule) (row : Nat) :
    acceptsRow makeStringMatcher vformat table (.and [.leaf rule]) row =
      (leafTruth makeStringMatcher vformat table rule row).getD true := by
  have one := @acceptsRow_and makeStringMatcher vformat table [rule] [] row
  rw [List.all_nil, Bool.and_true, List.all_cons, List.all_nil, Bool.and_true] at one
  exact one

/-- So does a filter of one tree. -/
theorem acceptsRow_tree (table : LogTable) (tree : FilterExpression) (row : Nat) :
    acceptsRow makeStringMatcher vformat table (.and [tree]) row =
      (treeTruth makeStringMatcher vformat table tree row).getD true := by
  have one := @acceptsRow_and makeStringMatcher vformat table [] [tree] row
  rw [List.all_nil, Bool.true_and, List.all_cons, List.all_nil, Bool.and_true] at one
  exact one

/-- Every tree of one leaf accepts a row as before exactly if the leaf says what it said. -/
theorem trees_iff (rule : LeafRule) :
    (∀ tree : FilterExpression, tree.isLeaf = false → tree.leaves = [rule] →
        acceptsRow makeStringMatcher vformat new (.and [tree]) later =
          acceptsRow makeStringMatcher vformat old (.and [tree]) row) ↔
      leafTruth makeStringMatcher vformat new rule later = leafTruth makeStringMatcher vformat old
        rule row := by
  constructor
  · intro same
    -- One tree tells accepting leaves from rejecting ones, and the other one inert leaves from
    -- accepting ones.
    have or_ := same (.or [.leaf rule]) rfl rfl
    have not_ := same (.not (some (.leaf rule))) rfl rfl
    rw [acceptsRow_tree, acceptsRow_tree] at or_ not_
    have orTruth (table : LogTable) (position : Nat) : treeTruth makeStringMatcher vformat table
      (.or [.leaf rule]) position =
        leafTruth makeStringMatcher vformat table rule position := by
      unfold leafTruth treeTruth
      generalize own : truthOf makeStringMatcher vformat table.columns (some table) table
        (.leaf rule) = truth
      have children : truthsOf makeStringMatcher vformat table.columns
          (some table) table [.leaf rule] = truth.toList ++ [] :=
        own ▸ rfl
      rw [show truthOf makeStringMatcher vformat table.columns (some table) table
        (.or [.leaf rule]) =
        if (truth.toList ++ []).isEmpty then none
          else some fun row => (truth.toList ++ []).any (· row) from children ▸ rfl]
      cases truth <;> simp
    have notTruth (table : LogTable) (position : Nat) :
        treeTruth makeStringMatcher vformat table (.not (some (.leaf rule))) position =
          (leafTruth makeStringMatcher vformat table rule position).map not := by
      rw [treeTruth, show truthOf makeStringMatcher vformat table.columns (some table) table
        (.not (some (.leaf rule))) =
        (truthOf makeStringMatcher vformat table.columns (some table) table (.leaf rule)).map
          fun truth row => !truth row from rfl,
        leafTruth, treeTruth, Option.map_map, Option.map_map]
      rfl
    rw [orTruth, orTruth] at or_
    rw [notTruth, notTruth] at not_
    cases after : leafTruth makeStringMatcher vformat new rule later with
    | none =>
      rw [after] at or_ not_
      cases before : leafTruth makeStringMatcher vformat old rule row with
      | none => rfl
      | some verdict => cases verdict <;> simp_all
    | some verdict =>
      rw [after] at or_ not_
      cases before : leafTruth makeStringMatcher vformat old rule row with
      | none => cases verdict <;> simp_all
      | some earlier => cases verdict <;> cases earlier <;> simp_all
  · intro same tree _ leaves
    rw [acceptsRow_tree, acceptsRow_tree]
    refine congrArg (·.getD true) (treeTruth_congr tree fun other listed => ?_)
    rw [leaves, List.mem_singleton] at listed
    rw [listed]
    exact same

end Truths

namespace LogTable

/-- The strings that names of levels are compiled to on a level column. -/
def compiledStrings (table : LogTable) (columnIndex : Nat) (filterValues : List Bytes) :
    List Bytes :=
  match table.columns[columnIndex]?, table.levelRanks columnIndex,
    (table.resolveEnumColumn columnIndex).2 with
  | some column, some ranks, some dictionary =>
    expandLevels (selectedLevels filterValues column.levelMapping) ranks dictionary
  | _, _, _ => []

/-- An enumeration leaf on the column. -/
def OnColumn (table : LogTable) (columnIndex : Nat) (rule : LeafRule) : Prop :=
  rule.type = .enumeration ∧ resolveLeafColumnByKeys rule.columnKeys table.columns =
    some columnIndex

/-- The row is accepted by the predicate that names of levels are compiled to. -/
def AcceptsLevels (table : LogTable) (columnIndex : Nat) (filterValues : List Bytes)
    (row : Nat) : Prop :=
  (EnumRowPredicate.ofSelection columnIndex (table.compiledStrings columnIndex filterValues)
    (table.resolveEnumColumn columnIndex).2).matchesRow table row = true

/-- The row shows a string in the column that is one of the names. -/
abbrev ShowsName (table : LogTable) (columnIndex : Nat) (filterValues : List Bytes)
    (row : Nat) : Prop :=
  EnumRowPredicate.ShowsSelected filterValues table row columnIndex

/-- What a simple leaf says of a row stays: with captured strings, where it accepted the row exactly
if the row shows one of those afterwards; without any, where the row shows a name itself. -/
def KeepsSimple (old new : LogTable) (columnIndex : Nat) (filterValues : List Bytes)
    (row later : Nat) : Prop :=
  if (old.capturedLevels columnIndex).entries = [] then filterValues = [] ∨
    new.ShowsName columnIndex filterValues later
  else
    old.compiledStrings columnIndex filterValues = [] ∨
      (old.AcceptsLevels columnIndex filterValues row ↔
      new.ShowsName columnIndex (old.compiledStrings columnIndex filterValues) later)

/-- What a leaf inside another tree says of a row stays: some string has a level of its names, and
it accepted the row exactly if the row shows a name itself afterwards; or it has no names. -/
def KeepsNested (old new : LogTable) (columnIndex : Nat) (filterValues : List Bytes)
    (row later : Nat) : Prop :=
  filterValues = [] ∨ old.compiledStrings columnIndex filterValues ≠ [] ∧
    (old.AcceptsLevels columnIndex filterValues row ↔ new.ShowsName columnIndex filterValues later)

/-- The column at the position was a level column with ranks, and is none any more, without a
dictionary; the columns keep their keys and levels. -/
structure Demotes (old new : LogTable) (columnIndex : Nat) (column : Column) (ranks : List LogLevel)
    (dictionary : EnumDictionary) : Prop where
  built : BuiltLevelColumn old columnIndex column ranks dictionary
  columns : ∀ (position : Nat) other, old.columns[position]? = some other →
    ∃ later, new.columns[position]? = some later ∧ later.keys = other.keys ∧
      later.levelMapping = other.levelMapping
  lost : (new.columns[columnIndex]?.map (·.type)) ≠ some .level
  none_ : (new.resolveEnumColumn columnIndex).2 = none

end LogTable

section Leaves

open LogTable (Demotes)

variable {makeStringMatcher : Bytes → LeafRuleMatch → Bytes → Bool}
    {vformat : Bytes → LogValue → Bytes}
  {old new : LogTable} {columnIndex row later : Nat} {column : Column} {ranks : List LogLevel}
    {dictionary : EnumDictionary}
  {rule : LeafRule}

/-- The strings that names are compiled to on a built level column. -/
theorem BuiltLevelColumn.compiledStrings_eq
    (built : BuiltLevelColumn old columnIndex column ranks dictionary)
    (filterValues : List Bytes) :
    old.compiledStrings columnIndex filterValues = expandLevels
      (selectedLevels filterValues column.levelMapping) ranks dictionary := by
  unfold LogTable.compiledStrings
  rw [built.located, built.ranked, built.resolved]

/-- No names are compiled to no string. -/
theorem BuiltLevelColumn.compiledStrings_nil
    (built : BuiltLevelColumn old columnIndex column ranks dictionary) :
    old.compiledStrings columnIndex [] = [] := by
  rw [built.compiledStrings_eq]
  refine List.eq_nil_iff_forall_not_mem.mpr fun text member => ?_
  obtain ⟨_, level, -, selected, -⟩ := mem_expandLevels.mp member
  cases selected

/-- A leaf on a built level column is inert where no string has a selected level. -/
theorem BuiltLevelColumn.leafTruth_eq
    (built : BuiltLevelColumn old columnIndex column ranks dictionary)
    (enumeration : rule.type = .enumeration)
    (resolved : resolveLeafColumnByKeys rule.columnKeys old.columns = some columnIndex) :
    leafTruth makeStringMatcher vformat old rule row =
      if old.compiledStrings columnIndex rule.filterValues = [] then none
      else some ((EnumRowPredicate.ofSelection columnIndex
        (old.compiledStrings columnIndex rule.filterValues)
        (old.resolveEnumColumn columnIndex).2).matchesRow old row) := by
  have own : old.columns[columnIndex]?.filter (·.type = .level) = some column := by
    rw [built.located]
    simp [built.level]
  rw [built.compiledStrings_eq, leafTruth, treeTruth, truthOf, resolved]
  by_cases noNames : rule.filterValues = []
  · -- No names select no level.
    have none_ : expandLevels (selectedLevels rule.filterValues column.levelMapping) ranks
        dictionary = [] := by
      rw [noNames, ← built.compiledStrings_eq, built.compiledStrings_nil]
    rw [if_pos none_]
    simp [compileLeaf, enumeration, compileEnumLeaf, noNames]
  · have some_ : rule.filterValues.isEmpty = false := List.isEmpty_eq_false_iff.mpr noNames
    by_cases none_ : expandLevels (selectedLevels rule.filterValues column.levelMapping) ranks
      dictionary = []
    · rw [if_pos none_]
      simp [compileLeaf, enumeration, compileEnumLeaf, some_, own, compileLevelLeaf, built.ranked,
        built.resolved, none_]
    · rw [if_neg none_]
      simp [compileLeaf, enumeration, compileEnumLeaf, some_, own, compileLevelLeaf, built.ranked,
        built.resolved, none_,
        matchesRow]

/-- A leaf on a column without a dictionary compares strings. -/
theorem leafTruth_of_plain (enumeration : rule.type = .enumeration)
    (resolved : resolveLeafColumnByKeys rule.columnKeys new.columns = some columnIndex)
    (notLevel : (new.columns[columnIndex]?.map (·.type)) ≠ some .level)
    (none_ : (new.resolveEnumColumn columnIndex).2 = none) :
    leafTruth makeStringMatcher vformat new rule row =
      if rule.filterValues = [] then none
      else some ((EnumRowPredicate.ofSelection columnIndex rule.filterValues none).matchesRow
        new row) := by
  -- The column is no Level column, so the names are compared with the text of the row.
  have other : new.columns[columnIndex]?.filter (·.type = .level) = none := by
    cases held : new.columns[columnIndex]? with
    | none => rfl
    | some column =>
      have other : column.type ≠ .level := fun level => notLevel (by rw [held, ← level]; rfl)
      simp [other]
  rw [leafTruth, treeTruth, truthOf, resolved]
  by_cases noNames : rule.filterValues = []
  · rw [if_pos noNames]
    simp [compileLeaf, enumeration, compileEnumLeaf, noNames]
  · have some_ : rule.filterValues.isEmpty = false := List.isEmpty_eq_false_iff.mpr noNames
    rw [if_neg noNames]
    simp [compileLeaf, enumeration, compileEnumLeaf, some_, other, none_, matchesRow]

namespace LogTable.Demotes

variable (demotes : Demotes old new columnIndex column ranks dictionary)

include demotes

/-- The column was there. -/
theorem inside : columnIndex < old.columns.length :=
  (List.getElem?_eq_some_iff.mp demotes.built.located).1

/-- Keys resolve to the column afterwards where they did before. -/
theorem resolved_iff (keys : List Bytes) :
    resolveLeafColumnByKeys keys new.columns = some columnIndex ↔
      resolveLeafColumnByKeys keys old.columns = some columnIndex := by
  -- The columns up to the demoted one have kept their keys.
  have back : ∀ {position : Nat} {later : Column}, position ≤ columnIndex →
    new.columns[position]? = some later →
      ∃ other, old.columns[position]? = some other ∧ later.keys = other.keys := by
    intro position later before held
    have bound := Nat.lt_of_le_of_lt before demotes.inside
    obtain ⟨found, inNew, keys, -⟩ := demotes.columns position _ (List.getElem?_eq_getElem bound)
    obtain rfl := Option.some.inj (held.symm.trans inNew)
    exact ⟨_, List.getElem?_eq_getElem bound, keys⟩
  rw [resolveLeafColumnByKeys_eq_some_iff, resolveLeafColumnByKeys_eq_some_iff]
  refine and_congr_right fun _ => and_congr ⟨?_, ?_⟩ ⟨fun first earlier before other held has => ?_,
    fun first earlier before later held has => ?_⟩
  · -- The column itself has the same keys before and after.
    rintro ⟨later, held, has⟩
    obtain ⟨other, was, same⟩ := back (le_refl _) held
    exact ⟨other, was, same ▸ has⟩
  · rintro ⟨other, held, has⟩
    obtain ⟨later, now, same, -⟩ := demotes.columns columnIndex other held
    exact ⟨later, now, same ▸ has⟩
  · -- An earlier column with all the keys would have been one before, and the other way round.
    obtain ⟨later, now, same, -⟩ := demotes.columns earlier other held
    exact first earlier before later now (same ▸ has)
  · obtain ⟨other, was, same⟩ := back before.le held
    exact first earlier before other was (same ▸ has)

/-- What an enumeration leaf says afterwards. -/
theorem leafTruth_after (enumeration : rule.type = .enumeration)
    (resolved : resolveLeafColumnByKeys rule.columnKeys old.columns = some columnIndex)
    (later : Nat) :
    (rule.filterValues = [] → leafTruth makeStringMatcher vformat new rule later = none) ∧
      (rule.filterValues ≠ [] →
        ∃ verdict, leafTruth makeStringMatcher vformat new rule later = some verdict ∧
        (verdict = true ↔ new.ShowsName columnIndex rule.filterValues later)) := by
  have meaning := @leafTruth_of_plain makeStringMatcher vformat new columnIndex later rule
    enumeration
    ((demotes.resolved_iff rule.columnKeys).mpr resolved) demotes.lost demotes.none_
  refine ⟨fun none_ => by rw [meaning, if_pos none_], fun some_ => ⟨_, by rw [meaning, if_neg some_], ?_⟩⟩
  -- Without a dictionary no predicate resolves ids, so it compares texts.
  have unarmed : ∀ dictionary, (none : Option EnumDictionary) = some dictionary →
      ¬EnumRowPredicate.Armed dictionary rule.filterValues := fun _ absent => by cases absent
  exact EnumRowPredicate.matchesRow_unarmed some_ unarmed ..

/-- The strings that are captured for the column. -/
theorem capturedLevels_eq : old.capturedLevels columnIndex = levelToRawBytes ranks dictionary := by
  unfold LogTable.capturedLevels
  rw [demotes.built.ranked, demotes.built.resolved]

/-- A leaf on the column is translated with the column's level mapping, and no other leaf is. -/
theorem withRawStrings_eq (strings : LevelStrings) (rule : LeafRule) :
    (old.OnColumn columnIndex rule → rule.withRawStrings new.columns columnIndex strings =
      { rule with
        filterValues := strings.expand (LogLevel.resolveLevel · column.levelMapping) rule.filterValues }) ∧
      (¬old.OnColumn columnIndex rule →
        rule.withRawStrings new.columns columnIndex strings = rule) := by
  obtain ⟨later, held, -, levels⟩ := demotes.columns columnIndex column demotes.built.located
  -- On the column the names are replaced by the texts that had those levels.
  unfold LeafRule.withRawStrings
  constructor
  · rintro ⟨enumeration, resolved⟩
    have same := (demotes.resolved_iff rule.columnKeys).mpr resolved
    rw [if_neg (not_not.mpr same), if_neg (not_not.mpr enumeration)]
    simp only [held, levels]
  · intro off
    split
    · rfl
    · rename_i resolved
      rw [if_pos]
      rintro enumeration
      exact off ⟨enumeration, (demotes.resolved_iff rule.columnKeys).mp (not_not.mp resolved)⟩

/-- A leaf that is translated is inert where it was, and else says of a row what it said exactly if
it accepted the row where that shows one of the strings afterwards. -/
theorem translated_cases (on : old.OnColumn columnIndex rule) (row later : Nat) :
    let translated : LeafRule := { rule with
      filterValues := (levelToRawBytes ranks dictionary).expand
        (LogLevel.resolveLevel · column.levelMapping) rule.filterValues }
    let strings := old.compiledStrings columnIndex rule.filterValues
    strings = [] ∧ leafTruth makeStringMatcher vformat new translated later = none ∧
        leafTruth makeStringMatcher vformat old rule row = none ∨
      strings ≠ [] ∧ ∃ after before, leafTruth makeStringMatcher vformat new translated later =
        some after ∧
        leafTruth makeStringMatcher vformat old rule row = some before ∧
        (after = before ↔ (old.AcceptsLevels columnIndex rule.filterValues row ↔
          new.ShowsName columnIndex strings later)) := by
  intro translated strings
  obtain ⟨enumeration, resolved⟩ := on
  -- The translated names are the strings that the levels stood for.
  have member : ∀ text, text ∈ translated.filterValues ↔ text ∈ strings := by
    intro text
    rw [show strings = _ from demotes.built.compiledStrings_eq rule.filterValues]
    exact LevelStrings.mem_expand_levelToRawBytes demotes.built.within
  have before := @BuiltLevelColumn.leafTruth_eq makeStringMatcher vformat old columnIndex row column
    ranks dictionary rule
    demotes.built enumeration resolved
  obtain ⟨inert, says_⟩ :=
    @leafTruth_after makeStringMatcher vformat old new columnIndex column ranks
      dictionary translated
    demotes enumeration resolved later
  -- Without strings the leaf says nothing, before or after.
  by_cases none_ : strings = []
  · have noNames : translated.filterValues = [] := by
      refine List.eq_nil_iff_forall_not_mem.mpr fun text listed => ?_
      rw [member, none_] at listed
      cases listed
    exact .inl ⟨none_, inert noNames, before.trans (if_pos none_)⟩
  · have some_ : translated.filterValues ≠ [] := by
      obtain ⟨text, listed⟩ := List.exists_mem_of_ne_nil _ none_
      exact List.ne_nil_of_mem ((member text).mpr listed)
    obtain ⟨verdict, after, accepts_⟩ := says_ some_
    -- With strings it accepts what shows one of them, under either list of names.
    have same : new.ShowsName columnIndex translated.filterValues later ↔
        new.ShowsName columnIndex strings later :=
      exists_congr fun text => and_congr_left fun _ => member text
    refine .inr ⟨none_, _, _, after, before.trans (if_neg none_), ?_⟩
    rw [Bool.eq_iff_iff, accepts_, same]
    exact iff_comm

/-- A leaf that is left alone says of a row what it said, exactly if it has no names, or it was not
inert and accepted the row exactly if that shows one of the names afterwards. -/
theorem named_iff (on : old.OnColumn columnIndex rule) (row later : Nat) :
    leafTruth makeStringMatcher vformat new rule later = leafTruth makeStringMatcher vformat
      old rule row ↔
      old.KeepsNested new columnIndex rule.filterValues row later := by
  obtain ⟨enumeration, resolved⟩ := on
  have before := @BuiltLevelColumn.leafTruth_eq makeStringMatcher vformat old columnIndex row column
    ranks dictionary rule
    demotes.built enumeration resolved
  obtain ⟨inert, says_⟩ :=
    @leafTruth_after makeStringMatcher vformat old new columnIndex column ranks dictionary rule
    demotes enumeration resolved later
  unfold LogTable.KeepsNested
  -- A leaf without names says nothing at all.
  by_cases noNames : rule.filterValues = []
  · refine iff_of_true ?_ (.inl noNames)
    rw [before, if_pos (noNames ▸ demotes.built.compiledStrings_nil)]
    exact inert noNames
  · obtain ⟨verdict, after, accepts_⟩ := says_ noNames
    rw [before, after, or_iff_right noNames]
    -- Names that no string has had made the leaf silent; now it rejects.
    by_cases none_ : old.compiledStrings columnIndex rule.filterValues = []
    · rw [if_pos none_]
      exact iff_of_false (Option.some_ne_none _) fun both => both.1 none_
    · rw [if_neg none_, and_iff_right none_, Option.some.injEq, Bool.eq_iff_iff, accepts_]
      exact iff_comm

/-- A simple leaf without captured strings is accepted as before exactly if it has no names, or the
row shows one of them afterwards. -/
theorem uncaptured_iff (on : old.OnColumn columnIndex rule)
    (uncaptured : (old.capturedLevels columnIndex).entries = [])
    (row later : Nat) :
    (leafTruth makeStringMatcher vformat new rule later).getD true =
        (leafTruth makeStringMatcher vformat old rule row).getD true ↔
      rule.filterValues = [] ∨ new.ShowsName columnIndex rule.filterValues later := by
  obtain ⟨enumeration, resolved⟩ := on
  have before := @BuiltLevelColumn.leafTruth_eq makeStringMatcher vformat old columnIndex row column
    ranks dictionary rule
    demotes.built enumeration resolved
  obtain ⟨inert, says_⟩ :=
    @leafTruth_after makeStringMatcher vformat old new columnIndex column ranks dictionary rule
    demotes enumeration resolved later
  -- Without captured strings there is none to compile to.
  have none_ : old.compiledStrings columnIndex rule.filterValues = [] := by
    rw [demotes.capturedLevels_eq] at uncaptured
    rw [demotes.built.compiledStrings_eq]
    exact LevelStrings.expandLevels_of_empty demotes.built.within uncaptured _ _
  rw [before, if_pos none_, Option.getD_none]
  by_cases noNames : rule.filterValues = []
  · rw [inert noNames]
    exact iff_of_true rfl (.inl noNames)
  · obtain ⟨verdict, after, accepts_⟩ := says_ noNames
    rw [after, Option.getD_some, accepts_, or_iff_right noNames]

/-- A simple leaf on the column accepts a row as before exactly if it keeps what it says of it. -/
theorem simple_iff (on : old.OnColumn columnIndex rule) (row later : Nat) :
    (leafTruth makeStringMatcher vformat new
        (rule.onDemoted new.columns columnIndex (EnumDiff.stashed (old.capturedLevels columnIndex)))
          later).getD true =
        (leafTruth makeStringMatcher vformat old rule row).getD true ↔
      old.KeepsSimple new columnIndex rule.filterValues row later := by
  unfold LogTable.KeepsSimple EnumDiff.stashed
  by_cases uncaptured : (old.capturedLevels columnIndex).entries = []
  · rw [if_pos uncaptured, if_pos uncaptured]
    -- Nothing has been captured, so the leaf keeps its names.
    exact demotes.uncaptured_iff on uncaptured row later
  · rw [if_neg uncaptured, if_neg uncaptured]
    -- Else its names are replaced by the captured strings.
    have translated := (demotes.withRawStrings_eq (old.capturedLevels columnIndex) rule).1 on
    rw [demotes.capturedLevels_eq] at translated ⊢
    show (leafTruth makeStringMatcher vformat new
      (rule.withRawStrings new.columns columnIndex (levelToRawBytes ranks dictionary)) later).getD
        true = _ ↔ _
    rw [translated]
    obtain ⟨none_, after, before⟩ | ⟨some_, verdict, earlier, after, before, same⟩ :=
      @translated_cases makeStringMatcher vformat old new columnIndex column ranks dictionary rule
        demotes on row later
    · rw [after, before]
      exact iff_of_true rfl (.inl none_)
    · rw [after, before, or_iff_right some_, ← same]
      rfl

/-- A leaf elsewhere is left alone. -/
theorem onDemoted_off (off : ¬old.OnColumn columnIndex rule) (levelMapping : Option LevelStrings) :
    rule.onDemoted new.columns columnIndex levelMapping = rule := by
  cases levelMapping with
  | none => rfl
  | some strings => exact (demotes.withRawStrings_eq strings rule).2 off

/-- A row is accepted as before where each leaf on the column keeps what it says of it, and the
other leaves say what they said. -/
theorem keepsRow {state : FilterState} {leaves : List LeafRule} {others : List FilterExpression}
    (shows : state.Shows leaves others) (noLeaf : ∀ child ∈ others, child.isLeaf = false)
    (simple : ∀ rule ∈ leaves, old.OnColumn columnIndex rule →
    old.KeepsSimple new columnIndex rule.filterValues row later)
    (nested : ∀ tree ∈ others, ∀ rule ∈ tree.leaves, old.OnColumn columnIndex rule →
      old.KeepsNested new columnIndex rule.filterValues row later)
    (elsewhere : ∀ rule, (rule ∈ leaves ∨ ∃ tree ∈ others, rule ∈ tree.leaves) →
    ¬old.OnColumn columnIndex rule →
      leafTruth makeStringMatcher vformat new rule later = leafTruth makeStringMatcher vformat old
        rule row) :
    acceptsRow makeStringMatcher vformat new
        (state.onDemoted new.columns columnIndex
          (EnumDiff.stashed (old.capturedLevels columnIndex))).expression later =
      acceptsRow makeStringMatcher vformat old state.expression row := by
  -- The leaves and the trees are two parts of one conjunction, compared one by one.
  rw [shows.onDemoted noLeaf, shows.expression, acceptsRow_and, acceptsRow_and, List.all_map]
  congr 1
  · rw [Bool.eq_iff_iff, List.all_eq_true, List.all_eq_true]
    refine forall₂_congr fun rule member => Bool.eq_iff_iff.mp ?_
    by_cases on : old.OnColumn columnIndex rule
    · exact (demotes.simple_iff on row later).mpr (simple rule member on)
    · simp only [Function.comp, demotes.onDemoted_off on, elsewhere rule (.inl member) on]
  · rw [Bool.eq_iff_iff, List.all_eq_true, List.all_eq_true]
    refine forall₂_congr fun tree member => Bool.eq_iff_iff.mp ?_
    refine congrArg (·.getD true) (treeTruth_congr tree fun rule listed => ?_)
    by_cases on : old.OnColumn columnIndex rule
    · exact (demotes.named_iff on row later).mpr (nested tree member rule listed on)
    · exact elsewhere rule (.inr ⟨tree, member, listed⟩) on

end LogTable.Demotes

end Leaves

end Loglib
