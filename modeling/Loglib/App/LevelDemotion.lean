import Loglib.App.AdvancedFilter
import Loglib.App.EnumColumnSignals

/-! What the window does to the filters when a level column has lost its levels, and which strings
that leaves. -/

namespace Loglib

namespace LevelStrings

/-- The strings of a level. -/
def texts (strings : LevelStrings) (level : LogLevel) : List Bytes := (strings.find level).getD []

/-- The strings that names of levels stand for, sorted, each once. -/
def expand (strings : LevelStrings) (resolve : Bytes → Option LogLevel)
    (filterValues : List Bytes) : List Bytes :=
  ((filterValues.flatMap fun name => ((resolve name).map strings.texts).getD []).mergeSort
    fun first second => !decide (byteKey second < byteKey first)).dedup

/-- A string is one of some name's level. -/
theorem mem_expand {strings : LevelStrings} {resolve : Bytes → Option LogLevel}
    {filterValues : List Bytes} {text : Bytes} :
    text ∈ strings.expand resolve filterValues ↔
      ∃ name ∈ filterValues, ∃ level, resolve name = some level ∧ text ∈ strings.texts level := by
  rw [expand, List.mem_dedup, List.mem_mergeSort, List.mem_flatMap]
  refine exists_congr fun name => and_congr_right fun _ => ?_
  cases resolve name <;> simp

/-- One more string of a level. -/
theorem mem_texts_add {strings : LevelStrings} {level wanted : LogLevel} {text other : Bytes} :
    text ∈ (strings.add level other).texts wanted ↔ text ∈ strings.texts wanted ∨ wanted = level ∧
      text = other := by
  unfold texts add
  rw [KeyedList.find_put]
  by_cases same : wanted = level
  · subst same
    simp
  · simp [same]

/-- Strings by level, those of no known level left out. -/
theorem mem_texts_foldl {dictionary : EnumDictionary} {entries : List (LogLevel × Nat)}
    {strings : LevelStrings}
    {wanted : LogLevel} {text : Bytes} :
    text ∈ (entries.foldl (fun (strings : LevelStrings) (level, valueId) =>
        if level = .unknown then strings
          else strings.add level (dictionary.resolve valueId)) strings).texts wanted ↔
      text ∈ strings.texts wanted ∨
        ∃ valueId, (wanted, valueId) ∈ entries ∧ wanted ≠ .unknown ∧
          dictionary.resolve valueId = text := by
  induction entries generalizing strings with
  | nil => simp
  | cons entry rest ih =>
    obtain ⟨level, first⟩ := entry
    rw [List.foldl_cons, ih]
    dsimp only
    by_cases unknown : level = .unknown
    · subst unknown
      rw [if_pos rfl]
      refine or_congr_right (exists_congr fun valueId => ?_)
      constructor
      · exact fun ⟨listed, known, same⟩ => ⟨List.mem_cons_of_mem _ listed, known, same⟩
      · -- The entry is of no known level.
        rintro ⟨listed, known, same⟩
        rcases List.mem_cons.mp listed with head | tail
        · exact absurd (Prod.mk.inj head).1 known
        · exact ⟨tail, known, same⟩
    · rw [if_neg unknown, mem_texts_add, or_assoc]
      refine or_congr_right ?_
      constructor
      · rintro (⟨rfl, rfl⟩ | ⟨valueId, listed, known, same⟩)
        · exact ⟨first, List.mem_cons_self, unknown, rfl⟩
        · exact ⟨valueId, List.mem_cons_of_mem _ listed, known, same⟩
      · rintro ⟨valueId, listed, known, same⟩
        rcases List.mem_cons.mp listed with head | tail
        · obtain ⟨rfl, rfl⟩ := Prod.mk.inj head
          exact .inl ⟨rfl, same.symm⟩
        · exact .inr ⟨valueId, tail, known, same⟩

/-- The strings of a known level are those with its rank. -/
theorem mem_texts_levelToRawBytes {ranks : List LogLevel} {dictionary : EnumDictionary}
    (short : ranks.length ≤ dictionary.size)
    {level : LogLevel} (known : level ≠ .unknown) {text : Bytes} :
    text ∈ (levelToRawBytes ranks dictionary).texts level ↔
      ∃ valueId, ranks[valueId]? = some level ∧ dictionary.resolve valueId = text := by
  have none_ : texts KeyedList.empty level = [] := rfl
  unfold levelToRawBytes
  rw [mem_texts_foldl, none_, List.take_of_length_le short]
  simp only [List.not_mem_nil, false_or, List.mem_zipIdx_iff_getElem?]
  exact exists_congr fun valueId => ⟨fun ⟨ranked, _, same⟩ => ⟨ranked, same⟩, fun ⟨ranked, same⟩ =>
    ⟨ranked, known, same⟩⟩

/-- What the names are translated to are the strings that they are compiled to. -/
theorem mem_expand_levelToRawBytes {ranks : List LogLevel} {dictionary : EnumDictionary}
    (short : ranks.length ≤ dictionary.size)
    {levelMapping : List (Bytes × Bytes)} {filterValues : List Bytes} {text : Bytes} :
    text ∈ (levelToRawBytes ranks dictionary).expand
      (LogLevel.resolveLevel · levelMapping) filterValues ↔
      text ∈ expandLevels (selectedLevels filterValues levelMapping) ranks dictionary := by
  rw [mem_expand, mem_expandLevels]
  constructor
  · -- A name stands for a level, and a level for the texts of that rank.
    rintro ⟨name, listed, level, named, member⟩
    have selected : level ∈ selectedLevels filterValues levelMapping :=
      List.mem_filterMap.mpr ⟨name, listed, named⟩
    obtain ⟨valueId, ranked, same⟩ :=
      (mem_texts_levelToRawBytes short (selectedLevels_known selected)).mp member
    exact ⟨valueId, level, ranked, selected, same⟩
  · rintro ⟨valueId, level, ranked, selected, same⟩
    obtain ⟨name, listed, named⟩ := List.mem_filterMap.mp selected
    exact ⟨name, listed, level, named,
      (mem_texts_levelToRawBytes short (selectedLevels_known selected)).mpr ⟨valueId, ranked, same⟩⟩

/-- Where no string is captured, no names are compiled to any. -/
theorem expandLevels_of_empty {ranks : List LogLevel} {dictionary : EnumDictionary}
    (short : ranks.length ≤ dictionary.size)
    (none_ : (levelToRawBytes ranks dictionary).entries = []) (filterValues : List Bytes)
    (levelMapping : List (Bytes × Bytes)) :
    expandLevels (selectedLevels filterValues levelMapping) ranks dictionary = [] := by
  refine List.eq_nil_iff_forall_not_mem.mpr fun text member => ?_
  obtain ⟨valueId, level, ranked, selected, same⟩ := mem_expandLevels.mp member
  have captured := (mem_texts_levelToRawBytes short (selectedLevels_known selected)).mpr ⟨valueId,
    ranked, same⟩
  rw [texts, KeyedList.find, none_] at captured
  exact List.not_mem_nil captured

end LevelStrings

/-- A leaf on the column that lost its levels, with the strings of its levels. -/
def LeafRule.withRawStrings (columns : List Column) (columnIndex : Nat) (strings : LevelStrings)
    (filter : LeafRule) : LeafRule :=
  if resolveLeafColumnByKeys filter.columnKeys columns ≠ some columnIndex then filter
  else if filter.type ≠ .enumeration then filter
  else
    let resolve (name : Bytes) : Option LogLevel :=
      match columns[columnIndex]? with
      | some demotedColumn => LogLevel.resolveLevel name demotedColumn.levelMapping
      | none => LogLevel.parseLevelName name
    { filter with filterValues := strings.expand resolve filter.filterValues }

/-- A simple leaf after a column was demoted. -/
def LeafRule.onDemoted (columns : List Column) (columnIndex : Nat)
    (levelMapping : Option LevelStrings) (filter : LeafRule) :
    LeafRule :=
  match levelMapping with
  | none => filter
  | some strings => filter.withRawStrings columns columnIndex strings

namespace FilterState

/-- `OnEnumColumnsChangedApplyFilterRebuild` for a column that was demoted: what it does
to the filters. -/
def onDemoted (columns : List Column) (columnIndex : Nat) (levelMapping : Option LevelStrings)
    (state : FilterState) : FilterState :=
  match levelMapping with
  | none => state
  | some strings =>
    ({ state with
      simpleLeaves := state.simpleLeaves.mapValues
        (LeafRule.withRawStrings columns columnIndex strings) } :
        FilterState).rebuildFilterExpressionFromSimpleLeaves

/-- The simple leaves in their order, after each was changed. -/
theorem orderedLeaves_mapValues (state : FilterState) (change : LeafRule → LeafRule) :
    ({ state with simpleLeaves := state.simpleLeaves.mapValues change } :
    FilterState).orderedLeaves =
      state.orderedLeaves.map change := by
  simp only [orderedLeaves, List.map_filterMap, KeyedList.find_mapValues]

/-- A mirrored expression after its column was demoted: the simple leaves are translated, where
there are captured strings, and nothing else changes. -/
theorem Shows.onDemoted {state : FilterState} {leaves : List LeafRule}
    {others : List FilterExpression}
    (shows : state.Shows leaves others) (noLeaf : ∀ child ∈ others, child.isLeaf = false)
    (columns : List Column)
    (columnIndex : Nat) (levelMapping : Option LevelStrings) :
    (state.onDemoted columns columnIndex levelMapping).expression =
      .and ((leaves.map (LeafRule.onDemoted columns columnIndex levelMapping)).map .leaf ++
        others) := by
  -- Without a mapping every leaf stays.
  cases levelMapping with
  | none =>
    rw [show leaves.map (LeafRule.onDemoted columns columnIndex none) =
      leaves from List.map_id leaves]
    exact shows.expression
  -- The leaves are rewritten in their order, and the other trees are kept.
  | some strings =>
    have kept : others.filter (fun child => !child.isLeaf) = others := by
      refine List.filter_eq_self.mpr fun child member => ?_
      rw [noLeaf child member]
      rfl
    have translated := state.orderedLeaves_mapValues
      (LeafRule.withRawStrings columns columnIndex strings)
    rw [shows.ordered] at translated
    unfold FilterState.onDemoted rebuildFilterExpressionFromSimpleLeaves
    simp only [preserved, shows.expression, filter_leaves_append, kept]
    exact congrArg (fun leaves : List LeafRule =>
      FilterExpression.and (leaves.map .leaf ++ others)) translated

end FilterState

end Loglib
