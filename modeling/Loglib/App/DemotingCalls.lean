import Loglib.App.DemotedFilters

/-! A level column that a batch or the end of a stream demotes, and what becomes of the
filters on it. -/

namespace Loglib

namespace LogTable

section Views

/-- The dictionary of a column, by its first key. -/
def dictionaryOf (table : LogTable) (column : Column) : Option EnumDictionary :=
  (column.keys.head?.bind table.keys.find).bind table.enumDictionaries.find

/-- The ranks of a level column. -/
def ranksOf (table : LogTable) (column : Column) : Option (List LogLevel) :=
  if column.type = .level then (column.keys.head?.bind table.keys.find).bind table.levelRankCache
    else none

/-- The resolved dictionary is that of the column. -/
theorem resolveEnumColumn_eq (table : LogTable) (position : Nat) :
    (table.resolveEnumColumn position).2 = table.columns[position]?.bind table.dictionaryOf := by
  unfold resolveEnumColumn
  -- Found only for a column whose first key is registered.
  cases table.columns[position]? with
  | none => rfl
  | some column =>
    simp only [Option.bind_some, dictionaryOf]
    cases column.keys.head? with
    | none => rfl
    | some key =>
      simp only [Option.bind_some]
      cases table.keys.find key <;> rfl

/-- The level ranks are those of the column. -/
theorem levelRanks_eq (table : LogTable) (position : Nat) :
    table.levelRanks position = table.columns[position]?.bind table.ranksOf := by
  unfold levelRanks
  cases table.columns[position]? with
  | none => rfl
  | some column =>
    simp only [Option.bind_some, ranksOf]
    -- Only a Level column has ranks, and only under a registered key.
    by_cases level : column.type = .level
    · simp only [level, ne_eq, not_true_eq_false, if_false, if_true]
      cases column.keys.head? with
      | none => rfl
      | some key =>
        simp only [Option.bind_some]
        cases table.keys.find key <;> rfl
    · simp [level]

/-- Registering keys keeps those that are registered. -/
theorem internKeys_grows (table : LogTable) (names : List Bytes) :
    table.keys.Grows (table.internKeys names).keys :=
  foldl_invariant (fun keys : KeyIndex => table.keys.Grows keys)
    (fun keys name _ grows => grows.trans (keys.getOrInsert_grows name)) (.refl _)

end Views

end LogTable

section Built

variable {old new : LogTable} {position : Nat} {column : Column} {ranks : List LogLevel}
    {dictionary : EnumDictionary}

/-- The first key of a built level column is registered, and the dictionary and the ranks are filed
under its id. -/
theorem BuiltLevelColumn.canonical (built : BuiltLevelColumn old position column ranks dictionary) :
    ∃ name canonical, column.keys.head? = some name ∧ old.keys.find name = some canonical ∧
      old.enumDictionaries.find canonical = some dictionary ∧
        old.levelRankCache canonical = some ranks := by
  have resolved := built.resolved
  -- Both look-ups go through the id of the first key.
  rw [LogTable.resolveEnumColumn_eq, built.located, Option.bind_some] at resolved
  obtain ⟨canonical, key, found⟩ := Option.bind_eq_some_iff.mp resolved
  obtain ⟨name, head, registered⟩ := Option.bind_eq_some_iff.mp key
  have ranked := built.ranked
  rw [LogTable.levelRanks_eq, built.located, Option.bind_some, LogTable.ranksOf, if_pos built.level,
    key, Option.bind_some] at ranked
  exact ⟨name, canonical, head, registered, found, ranked⟩

/-- A column stays a built level column where keys are registered and rows go. -/
theorem BuiltLevelColumn.grown (built : BuiltLevelColumn old position column ranks dictionary)
    (columns : new.columns = old.columns)
    (keys : old.keys.Grows new.keys) (registry : new.enumDictionaries = old.enumDictionaries)
    (cache : new.levelRankCache = old.levelRankCache) :
    BuiltLevelColumn new position column ranks dictionary := by
  obtain ⟨name, canonical, head, registered, found, ranked⟩ := built.canonical
  have located : new.columns[position]? = some column := columns ▸ built.located
  -- Ids only grow, so the first key still has its id, and dictionary and ranks are there under it.
  refine ⟨located, built.level, ?_, ?_, built.within⟩
  · rw [LogTable.levelRanks_eq, located, Option.bind_some, LogTable.ranksOf, if_pos built.level,
      head, Option.bind_some, keys.find registered,
      Option.bind_some, cache, ranked]
  · rw [LogTable.resolveEnumColumn_eq, located, Option.bind_some, LogTable.dictionaryOf, head,
      Option.bind_some, keys.find registered,
      Option.bind_some, registry, found]

end Built

namespace LogTable

/-- Every column keeps its keys and its levels, and every registered key its id. -/
structure KeepsColumns (old new : LogTable) : Prop where
  columns : ∀ (position : Nat) column, old.columns[position]? = some column →
    ∃ later, new.columns[position]? = some later ∧ later.keys = column.keys ∧
      later.levelMapping = column.levelMapping
  keys : old.keys.Grows new.keys

section Calls

variable {old middle new : LogTable} {position : Nat} {column : Column} {ranks : List LogLevel}
    {dictionary : EnumDictionary}
  {parse : TimestampParser} {batch : StreamedBatch}

/-- The enumeration work keeps the columns. -/
theorem KeepsColumns.of_enum (frame : EnumFrame old new) : KeepsColumns old new := by
  refine ⟨fun position column held => ?_, frame.keys⟩
  obtain ⟨later, inside, retyped⟩ := forall₂_getElem? frame.columns held
  exact ⟨later, inside, retyped.keys, retyped.levelMapping⟩

/-- One change after another. -/
theorem KeepsColumns.trans (one : KeepsColumns old middle) (two : KeepsColumns middle new) :
    KeepsColumns old new := by
  refine ⟨fun position column held => ?_, one.keys.trans two.keys⟩
  obtain ⟨between, inMiddle, keys, levels⟩ := one.columns position column held
  obtain ⟨later, inNew, sameKeys, sameLevels⟩ := two.columns position between inMiddle
  exact ⟨later, inNew, sameKeys.trans keys, sameLevels.trans levels⟩

/-- A batch keeps the columns. -/
theorem keepsColumns_appendBatch (done : old.appendBatch parse batch = some new) :
    KeepsColumns old new := by
  obtain ⟨walk, passed, rfl⟩ := Option.map_eq_some_iff.mp done
  obtain ⟨added, -, -, columns⟩ := old.configuration.appendKeys_columns batch.newKeys
  obtain ⟨sameColumns, sameKeys⟩ := appendBatchRows_frame parse old batch
  -- The new keys add columns behind the old ones and register no others.
  have frame : (old.withRows batch).configuration = old.configuration.appendKeys batch.newKeys ∧
      (old.withRows batch).keys = old.keys := by
    unfold withRows refreshColumnKeyIdsForKeys
    simp only
    split <;> exact ⟨rfl, rfl⟩
  -- Filling in the rows keeps these columns, and so does the pass.
  have rows : KeepsColumns old (old.appendBatchRows parse batch).table := by
    refine ⟨fun position column held => ⟨column, ?_, rfl, rfl⟩, ?_⟩
    · rw [sameColumns, LogTable.columns, frame.1, columns,
        List.getElem?_append_left (List.getElem?_eq_some_iff.mp held).1]
      exact held
    · rw [sameKeys, frame.2]
  have pass := rows.trans (.of_enum (enumFrame_runEnumPass passed))
  exact ⟨pass.columns, pass.keys⟩

/-- So does the end of a parse. -/
theorem keepsColumns_finalize (done : old.finalizeAutoDetection = some new) :
    KeepsColumns old new := by
  obtain ⟨settled, work, rfl⟩ := steps_finalizeAutoDetection done
  have frame : EnumFrame old settled := work.keeps .refl .trans enumFrame_of_step
  have kept : KeepsColumns old settled := .of_enum frame
  exact ⟨kept.columns, kept.keys⟩

/-- Columns and keys as they were. -/
theorem KeepsColumns.of_eq (columns : new.columns = old.columns) (keys : old.keys.Grows new.keys) :
    KeepsColumns old new :=
  ⟨fun _ column held => ⟨column, columns ▸ held, rfl, rfl⟩, keys⟩

/-- An eviction changes no column. -/
theorem evictPrefixRows_view (table : LogTable) (count : Nat) :
    (table.evictPrefixRows count).columns = table.columns ∧
      (table.evictPrefixRows count).keys = table.keys ∧
      (table.evictPrefixRows count).columnKeyIds = table.columnKeyIds ∧
      (table.evictPrefixRows count).enumDictionaries = table.enumDictionaries ∧
      (table.evictPrefixRows count).levelRankCache = table.levelRankCache := by
  unfold evictPrefixRows
  split
  · exact ⟨rfl, rfl, rfl, rfl, rfl⟩
  · split <;> exact ⟨rfl, rfl, rfl, rfl, rfl⟩

/-- The signals of a batch that demoted a level column once the oldest rows had made room, and what
it stashed. -/
theorem demotes_evictedBatch (dropped : Nat)
    (built : BuiltLevelColumn old position column ranks dictionary)
    (done : ((old.evictPrefixRows dropped).internKeys batch.newKeys).appendBatch parse batch =
    some new)
    (none_ : (new.resolveEnumColumn position).2 = none) :
    KeepsColumns old new ∧
      let diff := EnumDiff.ofBatch ((old.evictPrefixRows dropped).internKeys batch.newKeys) new
      diff.lastBatchLevelDemoteMappingFor position = EnumDiff.stashed
        (old.capturedLevels position) ∧
        ⟨.demoted, position⟩ ∈ diff.signals := by
  obtain ⟨columns, keys, -, registry, cache⟩ := old.evictPrefixRows_view dropped
  generalize old.evictPrefixRows dropped = evicted at *
  have grown : old.keys.Grows (evicted.internKeys batch.newKeys).keys :=
    keys ▸ evicted.internKeys_grows batch.newKeys
  have kept := keepsColumns_appendBatch done
  have after : BuiltLevelColumn (evicted.internKeys batch.newKeys) position column ranks
      dictionary :=
    built.grown columns grown registry cache
  obtain ⟨name, canonical, head, registered, found, -⟩ := after.canonical
  have begun : KeepsColumns old (evicted.internKeys batch.newKeys) := .of_eq columns grown
  refine ⟨begun.trans kept, ?_⟩
  -- The canonical key is still the first key's, and has no dictionary any more.
  have gone : new.enumDictionaries.find canonical = none := by
    obtain ⟨later, held, sameKeys, -⟩ := kept.columns position column after.located
    rw [resolveEnumColumn_eq, held, Option.bind_some, dictionaryOf, sameKeys, head,
      Option.bind_some,
      kept.keys.find registered] at none_
    exact none_
  have resolved : (evicted.internKeys batch.newKeys).resolveEnumColumn position = (some canonical,
      some dictionary) := by
    unfold resolveEnumColumn
    simp only [after.located, head, registered, found]
  rw [show old.capturedLevels position = (evicted.internKeys batch.newKeys).capturedLevels
    position by
    unfold capturedLevels; rw [built.ranked, built.resolved, after.ranked, after.resolved]]
  exact EnumDiff.ofBatch_demoted after.located after.level resolved gone

end Calls

end LogTable

namespace LogModel

/-- A call of the model that may demote columns. -/
inductive StreamCall where
  | appendBatch (batch : StreamedBatch)
  | endStreaming

namespace StreamCall

/-- How many of the oldest rows the call drops. -/
def dropped (model : LogModel) : StreamCall → Nat
  | .appendBatch batch => model.dropCount (model.collapseBatch batch)
  | .endStreaming => 0

/-- The table that the levels are captured of. -/
def captured (model : LogModel) : StreamCall → LogTable
  | .appendBatch batch =>
    let batch := model.collapseBatch batch
    (model.evictFor batch).table.internKeys batch.newKeys
  | .endStreaming => model.table

/-- The table when the signals for its enumeration columns are emitted. -/
def signalled (parse : TimestampParser) (model : LogModel) : StreamCall → Option LogTable
  | .appendBatch batch =>
    let batch := model.collapseBatch batch
    ((model.evictFor batch).takeBatch parse batch).map (·.table)
  | .endStreaming => model.table.finalizeAutoDetection

/-- The signals, and what is stashed for the demoted columns. -/
def enumDiff (model : LogModel) (signalled : LogTable) : StreamCall → EnumDiff
  | .appendBatch batch => .ofBatch (captured model (.appendBatch batch)) signalled
  | .endStreaming => .ofEnd model.table signalled

variable {parse : TimestampParser} {model : LogModel} {new : LogTable} {columnIndex : Nat}
    {column : Column}
  {ranks : List LogLevel} {dictionary : EnumDictionary}

/-- A level column that a call demotes. -/
theorem demotes_of_call (call : StreamCall)
    (built : BuiltLevelColumn model.table columnIndex column ranks dictionary)
    (done : call.signalled parse model = some new)
    (lost : (new.columns[columnIndex]?.map (·.type)) ≠ some .level)
    (none_ : (new.resolveEnumColumn columnIndex).2 = none) :
    model.table.Demotes new columnIndex column ranks dictionary ∧
      (call.enumDiff model new).lastBatchLevelDemoteMappingFor columnIndex =
          EnumDiff.stashed (model.table.capturedLevels columnIndex) ∧
        ⟨.demoted, columnIndex⟩ ∈ (call.enumDiff model new).signals := by
  -- A batch compares the snapshot with the table after it, the end of the stream its own columns.
  cases call with
  | appendBatch batch =>
    obtain ⟨taken, took, rfl⟩ := Option.map_eq_some_iff.mp done
    have appended := takeBatch_table took
    have parts := LogTable.demotes_evictedBatch (model.dropCount (model.collapseBatch batch)) built
      appended none_
    exact ⟨⟨built, parts.1.columns, lost, none_⟩, parts.2⟩
  | endStreaming =>
    have keeps := LogTable.keepsColumns_finalize done
    obtain ⟨later, held, -, -⟩ := keeps.columns columnIndex column built.located
    have other : later.type ≠ .level := fun level => lost (by rw [held, ← level]; rfl)
    exact ⟨⟨built, keeps.columns, lost, none_⟩,
      EnumDiff.ofEnd_demoted built.located built.level held other⟩

/-- The handler of the demotion of a level column: a filter of one simple leaf on the column accepts
a row as before exactly if the leaf keeps what it says, every tree around one leaf exactly if that
leaf does where it is left alone, and any other filter where all its leaves on the column do and the
others read the row as before. -/
theorem demoted_filters (makeStringMatcher : Bytes → LeafRuleMatch → Bytes → Bool)
    (vformat : Bytes → LogValue → Bytes)
    (cheapFirst : CheapFirstSort) (call : StreamCall)
    (built : BuiltLevelColumn model.table columnIndex column ranks dictionary)
    (done : call.signalled parse model = some new)
    (lost : (new.columns[columnIndex]?.map (·.type)) ≠ some .level)
    (none_ : (new.resolveEnumColumn columnIndex).2 = none) :
    let old := model.table
    let diff := call.enumDiff model new
    let handled : FilterState → FilterState :=
      .onDemoted new.columns columnIndex (diff.lastBatchLevelDemoteMappingFor columnIndex)
    ⟨.demoted, columnIndex⟩ ∈ diff.signals ∧
    ∀ row, call.dropped model ≤ row → row < old.rowCount →
      let later := row - call.dropped model
      let Keeps (state : FilterState) : Prop :=
        compiledAccepts makeStringMatcher vformat cheapFirst new (handled state).expression later =
          compiledAccepts makeStringMatcher vformat cheapFirst old state.expression row
      (∀ rule, old.OnColumn columnIndex rule →
        (∀ state : FilterState, state.Shows [rule] [] →
          (Keeps state ↔ old.KeepsSimple new columnIndex rule.filterValues row later)) ∧
        ((∀ (tree : FilterExpression) (state : FilterState), tree.isLeaf = false →
          tree.leaves = [rule] →
            state.Shows [] [tree] → Keeps state) ↔
              old.KeepsNested new columnIndex rule.filterValues row later)) ∧
      ∀ (state : FilterState) (leaves : List LeafRule) (others : List FilterExpression),
        state.Shows leaves others →
        (∀ child ∈ others, child.isLeaf = false) →
        (∀ rule ∈ leaves, old.OnColumn columnIndex rule →
          old.KeepsSimple new columnIndex rule.filterValues row later) →
        (∀ tree ∈ others, ∀ rule ∈ tree.leaves, old.OnColumn columnIndex rule →
          old.KeepsNested new columnIndex rule.filterValues row later) →
        (∀ rule, (rule ∈ leaves ∨ ∃ tree ∈ others, rule ∈ tree.leaves) →
          ¬old.OnColumn columnIndex rule →
          leafTruth makeStringMatcher vformat new rule later = leafTruth makeStringMatcher vformat
            old rule row) →
        Keeps state := by
  intro old diff handled
  obtain ⟨demotes, stashed, emitted⟩ := demotes_of_call call built done lost none_
  refine ⟨emitted, fun row _ _ => ?_⟩
  intro later Keeps
  have keeps_iff (state : FilterState) : Keeps state ↔
      acceptsRow makeStringMatcher vformat new
          (state.onDemoted new.columns columnIndex
            (EnumDiff.stashed (old.capturedLevels columnIndex))).expression later =
        acceptsRow makeStringMatcher vformat old state.expression row := by
    rw [← stashed]
    exact iff_of_eq (congrArg₂ (· = ·) (compiledAccepts_eq cheapFirst _ _ _)
      (compiledAccepts_eq cheapFirst _ _ _))
  refine ⟨fun rule on => ⟨fun state shows => ?_, ?_⟩,
    fun state leaves others shows noLeaf simple nested elsewhere => ?_⟩
  · -- One simple leaf is translated, and nothing else is left.
    rw [keeps_iff, shows.onDemoted (fun _ member => by cases member), shows.expression]
    simp only [List.map_cons, List.map_nil, List.append_nil, acceptsRow_leaf]
    exact demotes.simple_iff on row later
  · -- A tree is left alone, so it depends on what its leaf says.
    have shown (tree : FilterExpression) (noLeaf : tree.isLeaf = false) (state : FilterState)
      (shows : state.Shows [] [tree]) :
        Keeps state ↔ acceptsRow makeStringMatcher vformat new (.and [tree]) later =
          acceptsRow makeStringMatcher vformat old (.and [tree]) row := by
      rw [keeps_iff, shows.onDemoted (fun child member => List.mem_singleton.mp member ▸ noLeaf),
        shows.expression]
      exact Iff.rfl
    have named := @LogTable.Demotes.named_iff makeStringMatcher vformat old new columnIndex
      column ranks
      dictionary rule demotes on row later
    rw [← named, ← trees_iff]
    constructor
    · exact fun all tree noLeaf leaves =>
        (shown tree noLeaf ⟨.empty, [], .and [tree]⟩ ⟨rfl, rfl⟩).mp
          (all tree _ noLeaf leaves ⟨rfl, rfl⟩)
    · exact fun all tree state noLeaf leaves shows =>
        (shown tree noLeaf state shows).mpr (all tree noLeaf leaves)
  · rw [keeps_iff]
    exact demotes.keepsRow shows noLeaf simple nested elsewhere

/-- A column with the rows `info`, `info` and a number: with the first batch it becomes a
level column. -/
def detectedOps : List ModelOp :=
  [.beginStreaming (some (.file (.ofData (bytes "info\ninfo\n7\n")))),
    .appendBatch (fun _ => false)
      ⟨[.ofField 0 0 0 (.mmapSlice 0 4), .ofField 0 1 0 (.mmapSlice 5 4),
        .ofField 0 2 0 (.int64 7)], [5, 10, 12],
        [bytes "level"], []⟩]

/-- The model that has the rows. -/
def detectedModel : LogModel :=
  (LogModel.run (fun _ _ => none) (.ofConfiguration ⟨[], ⟨-1, false⟩⟩) detectedOps).getD
    (.ofConfiguration ⟨[], ⟨-1, false⟩⟩)

/-- The table once the stream has ended. -/
def demotedTable : LogTable :=
  (endStreaming.signalled (fun _ _ => none) detectedModel).getD detectedModel.table

/-- A filter around the rule for `Info`. -/
def nestedFilter : FilterState := ⟨.empty, [], .and [.or [.leaf infoRule]]⟩

/-- A filter with that rule as its simple leaf. -/
def simpleFilter : FilterState :=
  ⟨⟨[(bytes "a", infoRule)], List.nodup_singleton _⟩, [bytes "a"], .and [.leaf infoRule]⟩

/-- The run of the model goes through. -/
theorem detectedModel_ran :
    LogModel.run (fun _ _ => none)
      (.ofConfiguration ⟨[], ⟨-1, false⟩⟩) detectedOps = some detectedModel := by
  have reached : (LogModel.run (fun _ _ => none) (.ofConfiguration ⟨[], ⟨-1, false⟩⟩)
      detectedOps).isSome = true := by
    decide +kernel
  obtain ⟨model, ran⟩ := Option.isSome_iff_exists.mp reached
  rw [detectedModel, ran]
  rfl

/-- The filter accepts the first row before and after the end of the stream. -/
theorem simpleFilter_keepsRow :
    let diff := endStreaming.enumDiff detectedModel demotedTable
    compiledAccepts (fun _ _ _ => false) (fun _ _ => []) .stable demotedTable
        (simpleFilter.onDemoted demotedTable.columns 0
          (diff.lastBatchLevelDemoteMappingFor 0)).expression 0 =
      compiledAccepts (fun _ _ _ => false) (fun _ _ =>
        []) .stable detectedModel.table simpleFilter.expression 0 := by
  obtain ⟨column, held⟩ :=
    Option.isSome_iff_exists.mp (show detectedModel.table.columns[0]?.isSome =
      true by decide +kernel)
  have shape : detectedModel.table.columns[0]?.map (·.type) = some .level := by decide +kernel
  rw [held] at shape
  have ranked : detectedModel.table.levelRanks 0 = some [.info] := by decide +kernel
  obtain ⟨dictionary, resolved⟩ := Option.isSome_iff_exists.mp
    (show (detectedModel.table.resolveEnumColumn 0).2.isSome = true by decide +kernel)
  have size : (detectedModel.table.resolveEnumColumn 0).2.map (·.size) = some 1 := by decide +kernel
  rw [resolved] at size
  have built : BuiltLevelColumn detectedModel.table 0 column [.info] dictionary :=
    ⟨held, Option.some.inj shape, ranked, resolved, (Option.some.inj size).ge⟩
  have done : endStreaming.signalled (fun _ _ => none) detectedModel = some demotedTable := by
    obtain ⟨table, ended⟩ := Option.isSome_iff_exists.mp
      (show (endStreaming.signalled (fun _ _ => none) detectedModel).isSome =
        true by decide +kernel)
    rw [demotedTable, ended]
    rfl
  have gone : (demotedTable.resolveEnumColumn 0).2.isNone = true := by decide +kernel
  have filters := demoted_filters (fun _ _ _ => false) (fun _ _ =>
    []) .stable endStreaming built done (by decide +kernel)
    (Option.isNone_iff_eq_none.mp gone)
  obtain ⟨one, -⟩ := filters.2 0 (Nat.zero_le _) (by decide +kernel)
  have keeps : detectedModel.table.KeepsSimple demotedTable 0 infoRule.filterValues 0 0 := by
    have captured : ¬(detectedModel.table.capturedLevels 0).entries = [] := by decide +kernel
    rw [LogTable.KeepsSimple, if_neg captured]
    -- The predicate accepts the row, which shows the selected string afterwards.
    have accepted : detectedModel.table.AcceptsLevels 0 infoRule.filterValues 0 := by
      unfold LogTable.AcceptsLevels
      decide +kernel
    refine .inr (iff_of_true accepted ⟨bytes "info", by decide +kernel, by decide +kernel⟩)
  exact ((one infoRule ⟨rfl, by decide +kernel⟩).1 simpleFilter ⟨rfl, rfl⟩).mpr keeps

/-- The end of the stream demotes the column, and a filter around a leaf rejects a row that it
accepted. -/
theorem nestedFilter_losesRow :
    let diff := endStreaming.enumDiff detectedModel demotedTable
    LogModel.run (fun _ _ => none) (.ofConfiguration ⟨[], ⟨-1, false⟩⟩) detectedOps =
      some detectedModel ∧
      (detectedModel.table.columns[0]?.map (·.type)) = some .level ∧
      (endStreaming.signalled (fun _ _ => none) detectedModel).isSome = true ∧
      (demotedTable.columns[0]?.map (·.type)) = some .string ∧ ⟨.demoted, 0⟩ ∈ diff.signals ∧
      compiledAccepts (fun _ _ _ => false) (fun _ _ =>
        []) .stable detectedModel.table nestedFilter.expression 0 = true ∧
      compiledAccepts (fun _ _ _ => false) (fun _ _ => []) .stable demotedTable
        (nestedFilter.onDemoted demotedTable.columns 0
          (diff.lastBatchLevelDemoteMappingFor 0)).expression 0 = false := by
  exact ⟨detectedModel_ran, by decide +kernel⟩

end StreamCall

end LogModel

end Loglib
