import Loglib.Filter.RowPredicate
import Loglib.Table.ValueRuns

/-! When an enumeration predicate accepts the rows whose value is selected. -/

namespace Loglib

namespace EnumRowPredicate

/-- What selecting distinct values has done to the predicate so far. -/
structure Selected (dictionary : EnumDictionary) (columnIndex : Nat) (values : List Bytes)
    (built : EnumRowPredicate × Nat) : Prop where
  column : built.1.columnIndex = columnIndex
  some_ : built.1.emptySelection = false
  sized : built.1.selectedIds.length = dictionary.size
  ids : ∀ id < dictionary.size,
    built.1.selectedIds[id]? = some (decide (dictionary.resolve id ∈ values))
  strings : built.1.selectedStrings = values.filter fun value => dictionary.find value = none
  armed : built.1.fastPathArmed = values.any fun value => (dictionary.find value).isSome
  counted : built.2 = values.countP fun value => (dictionary.find value).isSome

/-- Selecting one more value. -/
theorem Selected.select {dictionary : EnumDictionary} {columnIndex : Nat} {values : List Bytes}
    {built : EnumRowPredicate × Nat} (selected : Selected dictionary columnIndex values built)
    (value : Bytes) :
    Selected dictionary columnIndex (values ++ [value]) (select dictionary built value) := by
  obtain ⟨predicate, count⟩ := built
  obtain ⟨column, some_, sized, ids, strings, armed, counted⟩ := selected
  simp only at column some_ sized ids strings armed counted
  unfold EnumRowPredicate.select
  cases found : dictionary.find value with
  | none =>
    refine ⟨column, some_, sized, fun id bound => ?_, ?_, ?_, ?_⟩
    · -- The value has no id, so no id stands for it.
      have other : dictionary.resolve id ≠ value := by
        intro same
        rw [← same, EnumDictionary.find_resolve bound] at found
        cases found
      simp [ids id bound, other]
    · simp [strings, found]
    · simp [armed, found]
    · simp [counted, found]
  | some own =>
    have inside := EnumDictionary.find_lt_size found
    simp only
    rw [if_neg (by rw [sized]; exact Nat.not_le_of_lt inside)]
    refine ⟨column, some_, by rw [List.length_set, sized], fun id bound => ?_, ?_, ?_, ?_⟩
    · by_cases same : own = id
      · subst same
        have text := EnumDictionary.resolve_of_find found
        rw [List.getElem?_set_self (by rw [sized]; exact inside)]
        simp [text]
      · have other : dictionary.resolve id ≠ value := by
          intro text
          rw [← text, EnumDictionary.find_resolve bound] at found
          exact same (Option.some.inj found).symm
        rw [List.getElem?_set_ne same, ids id bound]
        simp [other]
    · simp [strings, found]
    · simp [found]
    · simp [counted, found]

/-- Selecting values one after the other. -/
theorem Selected.foldl {dictionary : EnumDictionary} {columnIndex : Nat} {values : List Bytes}
    {built : EnumRowPredicate × Nat} (selected : Selected dictionary columnIndex values built)
    (more : List Bytes) :
    Selected dictionary columnIndex (values ++ more)
      (more.foldl (EnumRowPredicate.select dictionary) built) := by
  induction more generalizing values built with
  | nil => simpa using selected
  | cons value more ih =>
    have next := ih (selected.select value)
    rwa [List.append_assoc, List.singleton_append] at next

/-- A table row shows one of the selected strings. -/
def ShowsSelected (selected : List Bytes) (table : LogTable) (row column : Nat) : Prop :=
  ∃ text ∈ selected, table.getValue row column = .string text

/-- Some selected string is in the dictionary, so the predicate asks for ids first. -/
def Armed (dictionary : EnumDictionary) (selected : List Bytes) : Prop :=
  ∃ text ∈ selected, (dictionary.find text).isSome

/-- The string set accepts a row that shows one of its strings. -/
theorem matchesString_iff (predicate : EnumRowPredicate) (table : LogTable) (row : Nat) :
    predicate.matchesString table row = true ↔
      ShowsSelected predicate.selectedStrings table row predicate.columnIndex := by
  unfold matchesString ShowsSelected
  -- Only a text can be one of the selected strings.
  cases table.getValue row predicate.columnIndex with
  | string text =>
    cases strings : predicate.selectedStrings with
    | nil => simp
    | cons first others => simp
  | _ => simp

/-- A predicate built from a dictionary: a bit for each id, the strings without one, and
two flags. -/
structure Built (dictionary : EnumDictionary) (selected : List Bytes) (column : Nat)
    (predicate : EnumRowPredicate) :
    Prop where
  column : predicate.columnIndex = column
  some_ : predicate.emptySelection = false
  sized : predicate.selectedIds.length = dictionary.size
  ids : ∀ id < dictionary.size,
    predicate.selectedIds[id]? = some (decide (dictionary.resolve id ∈ selected))
  strings : ∀ text, text ∈ predicate.selectedStrings ↔ text ∈ selected ∧ dictionary.find text = none
  armed : predicate.fastPathArmed = true ↔ Armed dictionary selected
  resolved : predicate.allResolved = true ↔ ∀ text ∈ selected, (dictionary.find text).isSome

/-- The constructor builds such a predicate. -/
theorem ofSelection_built {selected : List Bytes} (some_ : selected ≠ [])
    (dictionary : EnumDictionary) (column : Nat) :
    Built dictionary selected column (ofSelection column selected (some dictionary)) := by
  have notEmpty : selected.isEmpty = false := List.isEmpty_eq_false_iff.mpr some_
  have start : Selected dictionary column []
      ({ ofColumn column with selectedIds := List.replicate dictionary.size false }, 0) :=
    ⟨rfl, rfl, by simp, fun id bound => by simp [bound], rfl, rfl, rfl⟩
  have all := start.foldl selected.dedup
  rw [List.nil_append] at all
  unfold ofSelection
  simp only [notEmpty, Bool.false_eq_true, if_false]
  refine ⟨all.column, all.some_, all.sized, fun id bound => ?_, fun text => ?_, ?_, ?_⟩
  · rw [all.ids id bound]
    simp
  · rw [all.strings]
    simp
  · rw [all.armed]
    simp [Armed]
  · -- All values are counted exactly if each of them has an id.
    rw [beq_iff_eq, all.counted, List.countP_eq_length]
    simp

/-- Without an id to go by, the predicate compares strings, and it is right. -/
theorem matchesRow_unarmed {selected : List Bytes} (some_ : selected ≠ [])
    {built : Option EnumDictionary}
    (unarmed : ∀ dictionary, built = some dictionary → ¬Armed dictionary selected)
    (table : LogTable) (row column : Nat) :
    (ofSelection column selected built).matchesRow table row = true ↔
      ShowsSelected selected table row column := by
  have notEmpty : selected.isEmpty = false := List.isEmpty_eq_false_iff.mpr some_
  cases built with
  | none =>
    simp only [ofSelection, notEmpty, Bool.false_eq_true, if_false, matchesRow, ofColumn,
      matchesString_iff]
    simp [ShowsSelected]
  | some dictionary =>
    have predicate := ofSelection_built some_ dictionary column
    have slow := unarmed dictionary rfl
    rw [matchesRow, predicate.some_, if_neg Bool.false_ne_true, if_neg (mt predicate.armed.mp slow),
      matchesString_iff,
      predicate.column]
    -- No selected string has an id, so all of them are compared.
    refine exists_congr fun text => and_congr_left fun _ => ?_
    rw [predicate.strings]
    refine ⟨And.left, fun member => ⟨member, ?_⟩⟩
    rw [← Option.not_isSome_iff_eq_none]
    exact fun known => slow ⟨text, member, known⟩

/-- An id that the dictionary had is looked up. -/
theorem matchesRow_known {selected : List Bytes} (some_ : selected ≠ [])
    {dictionary : EnumDictionary}
    (armed : Armed dictionary selected) {table : LogTable} {row column : Nat} {id : EnumValueId}
    (slot : table.getEnumValueId row column = some id) (known : id < dictionary.size) :
    (ofSelection column selected (some dictionary)).matchesRow table row = true ↔
      dictionary.resolve id ∈ selected := by
  have predicate := ofSelection_built some_ dictionary column
  rw [matchesRow, predicate.some_, if_neg Bool.false_ne_true, if_pos (predicate.armed.mpr armed),
    predicate.column, slot]
  simp [predicate.ids id known]

/-- Without such an id only the strings that the dictionary did not have are compared. -/
theorem matchesRow_unknown {selected : List Bytes} (some_ : selected ≠ [])
    {dictionary : EnumDictionary}
    (armed : Armed dictionary selected) {table : LogTable} {row column : Nat}
    (unknown : ∀ id, table.getEnumValueId row column = some id → dictionary.size ≤ id) :
    (ofSelection column selected (some dictionary)).matchesRow table row = true ↔
      ∃ text ∈ selected, dictionary.find text = none ∧
        table.getValue row column = .string text := by
  have predicate := ofSelection_built some_ dictionary column
  have compared : (ofSelection column selected (some dictionary)).matchesString table row = true ↔
      ∃ text ∈ selected, dictionary.find text = none ∧
        table.getValue row column = .string text := by
    rw [matchesString_iff, predicate.column]
    refine exists_congr fun text => ?_
    rw [predicate.strings, and_assoc]
  rw [matchesRow, predicate.some_, if_neg Bool.false_ne_true, if_pos (predicate.armed.mpr armed),
    predicate.column]
  cases slot : table.getEnumValueId row column with
  | none => exact compared
  | some id =>
    have past : (ofSelection column selected (some dictionary)).selectedIds[id]? = none := by
      rw [List.getElem?_eq_none_iff, predicate.sized]
      exact unknown id slot
    simp only [past]
    split
    · rename_i resolved
      -- Every selected string had an id, so none is left to compare.
      have all := predicate.resolved.mp resolved
      refine iff_of_false Bool.false_ne_true ?_
      rintro ⟨text, member, absent, -⟩
      have known := all text member
      rw [absent] at known
      cases known
    · exact compared

/-- The predicate misreads a row: some selected string is in the dictionary, and either the row has
no slot with an id of it and shows a selected string of it all the same, or the row has such a slot,
and exactly one of the slot's string and the row's value is selected. -/
def Misreads (dictionary : EnumDictionary) (selected : List Bytes) (table : LogTable)
    (row column : Nat) : Prop :=
  Armed dictionary selected ∧
    (((∀ id, table.getEnumValueId row column = some id → dictionary.size ≤ id) ∧
        ∃ text ∈ selected, (dictionary.find text).isSome ∧
          table.getValue row column = .string text) ∨
      ∃ id < dictionary.size, table.getEnumValueId row column = some id ∧
        ¬(dictionary.resolve id ∈ selected ↔ ShowsSelected selected table row column))

/-- A predicate built from a dictionary is right about a row exactly if it does not misread it. -/
theorem matchesRow_built_iff (selected : List Bytes) (dictionary : EnumDictionary)
    (table : LogTable) (row column : Nat) :
    ((ofSelection column selected (some dictionary)).matchesRow table row = true ↔
        ShowsSelected selected table row column) ↔
      ¬Misreads dictionary selected table row column := by
  by_cases some_ : selected = []
  · -- Nothing is selected, and nothing is accepted.
    subst some_
    refine iff_of_true ?_ fun misreads => ?_
    · simp [ofSelection, matchesRow, ShowsSelected]
    · obtain ⟨⟨text, member, -⟩, -⟩ := misreads
      cases member
  by_cases armed : Armed dictionary selected
  · by_cases known : ∃ id < dictionary.size, table.getEnumValueId row column = some id
    · obtain ⟨id, inside, slot⟩ := known
      rw [matchesRow_known some_ armed slot inside, Misreads, and_iff_right armed, not_or,
        not_exists]
      constructor
      · intro right
        refine ⟨fun unknown => absurd (unknown.1 id slot) (Nat.not_le_of_lt inside),
          fun other wrong => ?_⟩
        obtain rfl := Option.some.inj (slot.symm.trans wrong.2.1)
        exact wrong.2.2 right
      · intro none_
        by_contra wrong
        exact none_.2 id ⟨inside, slot, wrong⟩
    · have unknown : ∀ id, table.getEnumValueId row column = some id → dictionary.size ≤ id :=
        fun id slot => Nat.le_of_not_lt fun inside => known ⟨id, inside, slot⟩
      rw [matchesRow_unknown some_ armed unknown, Misreads, and_iff_right armed,
        and_iff_right unknown, not_or]
      constructor
      · intro right
        refine ⟨?_, fun other => known (other.imp fun id wrong => ⟨wrong.1, wrong.2.1⟩)⟩
        rintro ⟨text, member, had, shows⟩
        obtain ⟨other, -, absent, showsToo⟩ := right.mpr ⟨text, member, shows⟩
        obtain rfl := LogValue.string.inj (shows.symm.trans showsToo)
        rw [absent] at had
        cases had
      · rintro ⟨none_, -⟩
        refine ⟨fun ⟨text, member, _, shows⟩ => ⟨text, member, shows⟩,
          fun ⟨text, member, shows⟩ => ?_⟩
        refine ⟨text, member, ?_, shows⟩
        by_contra had
        exact none_ ⟨text, member, Option.isSome_iff_ne_none.mpr had, shows⟩
  · -- No selected string has an id, so all of them are compared.
    have slow : ∀ own, some dictionary = some own → ¬Armed own selected :=
      fun own same => Option.some.inj same ▸ armed
    exact iff_of_true (matchesRow_unarmed some_ slow table row column) fun misreads =>
      armed misreads.1

/-- Whatever the table, a predicate built from any dictionary, of now or of before, or from none,
accepts a row exactly if the row shows a selected string, unless it misreads the row. -/
theorem matchesRow_meaning_iff (selected : List Bytes) (built : Option EnumDictionary)
    (table : LogTable) (row column : Nat) :
    ((ofSelection column selected built).matchesRow table row = true ↔
      ShowsSelected selected table row column) ↔
      ∀ dictionary, built = some dictionary → ¬Misreads dictionary selected table row column := by
  -- Without a dictionary nothing can be misread.
  cases built with
  | none =>
    refine iff_of_true ?_ fun dictionary absent => by cases absent
    by_cases some_ : selected = []
    · subst some_
      simp [ofSelection, matchesRow, ShowsSelected]
    · exact matchesRow_unarmed some_ (fun dictionary absent => by cases absent) table row column
  | some dictionary =>
    rw [matchesRow_built_iff]
    exact ⟨fun own other same => Option.some.inj same ▸ own, fun all => all dictionary rfl⟩

end EnumRowPredicate

namespace LogTable

section Shown

/-- The first slot with a value that a line carries under the ids. -/
def firstShownSlot (line : LogLine) (context : SlotContext) :
    List (Option KeyId) → Option CompactLogValue
  | [] => none
  | none :: rest => firstShownSlot line context rest
  | some id :: rest =>
    if (line.getValue context id).isMonostate then firstShownSlot line context rest
      else line.findCompact id

/-- The slot that a cell shows. -/
def shownSlot (table : LogTable) (row column : Nat) : Option CompactLogValue :=
  match table.columnKeyIds[column]?, table.lines[row]? with
  | some ids, some line => firstShownSlot line table.context ids
  | _, _ => none

/-- A cell does not show a dictionary slot. -/
def ShowsRaw (table : LogTable) (row column : Nat) : Prop :=
  ∀ vid, table.shownSlot row column ≠ some (.dictRef vid)

variable {table : LogTable}

/-- A dictionary slot of a healthy table has the value of its key's dictionary. -/
theorem getValue_dictRef (healthy : table.Healthy) {line : LogLine} (listed : line ∈ table.lines)
    {id : KeyId} {vid : EnumValueId} (slot : line.findCompact id = some (.dictRef vid)) :
    ∃ dict, table.enumDictionaries.find id = some dict ∧ vid < dict.size ∧
      line.getValue table.context id = .string (dict.resolve vid) := by
  obtain ⟨dict, found, inside⟩ := healthy.resolved line listed id vid slot
  obtain ⟨source, located, -⟩ := healthy.readable line listed
  have found : table.enumDictionaries.find id = some dict := found
  have located : table.sources[line.source]? = some source := located
  refine ⟨dict, found, inside, ?_⟩
  simp only [LogLine.getValue, slot, context, located, CompactLogValue.materialise, found]

/-- When the first slot with a value is a dictionary slot, the id and the value are both its own. -/
theorem firstShownSlot_dictRef (healthy : table.Healthy) {line : LogLine}
    (listed : line ∈ table.lines)
    {ids : List (Option KeyId)} {vid : EnumValueId}
    (first : firstShownSlot line table.context ids = some (.dictRef vid)) :
    firstEnumValueId line ids = some vid ∧ ∃ id dict, some id ∈ ids ∧
      table.enumDictionaries.find id = some dict ∧
      vid < dict.size ∧ firstValue line table.context ids = .string (dict.resolve vid) := by
  induction ids with
  | nil => cases first
  | cons head rest ih =>
    cases head with
    | none =>
      obtain ⟨own, id, dict, member, facts⟩ := ih first
      exact ⟨own, id, dict, List.mem_cons_of_mem _ member, facts⟩
    | some key =>
      by_cases empty : (line.getValue table.context key).isMonostate = true
      · rw [firstShownSlot, if_pos empty] at first
        obtain ⟨own, id, dict, member, facts⟩ := ih first
        -- A dictionary slot would have a value, so the key holds none.
        have noId : line.getEnumValueId key = none := by
          cases slot : line.findCompact key with
          | none => simp [LogLine.getEnumValueId, slot]
          | some held =>
            cases held with
            | dictRef other =>
              obtain ⟨_, _, _, value⟩ := getValue_dictRef healthy listed slot
              rw [value] at empty
              cases empty
            | _ => simp [LogLine.getEnumValueId, slot]
        refine ⟨by simpa [firstEnumValueId, noId] using own, id, dict, List.mem_cons_of_mem _ member, ?_⟩
        simpa [firstValue, empty] using facts
      · rw [firstShownSlot, if_neg empty] at first
        obtain ⟨dict, found, inside, value⟩ := getValue_dictRef healthy listed first
        refine ⟨by simp [firstEnumValueId, LogLine.getEnumValueId, first], key, dict, List.mem_cons_self, found,
          inside, ?_⟩
        simp [firstValue, value, LogValue.isMonostate]

/-- The keys of a column find no other dictionary than the one that the column resolves to. -/
def OneDictionary (table : LogTable) (column : Nat) : Prop :=
  ∀ ids, table.columnKeyIds[column]? = some ids → ∀ id, some id ∈ ids →
    ∀ dict, table.enumDictionaries.find id = some dict →
      (table.resolveEnumColumn column).2 = some dict

/-- The predicate was built from what has become the column's dictionary. -/
def BuiltBefore (table : LogTable) (column : Nat) (dictionary : EnumDictionary) : Prop :=
  ∃ current, (table.resolveEnumColumn column).2 = some current ∧ dictionary.Grows current

/-- A row that shows a dictionary slot is never misread. -/
theorem showsRaw_of_misreads (healthy : table.Healthy) {dictionary : EnumDictionary}
    {selected : List Bytes}
    {row column : Nat} (own : table.OneDictionary column)
    (before : table.BuiltBefore column dictionary)
    (misreads : EnumRowPredicate.Misreads dictionary selected table row column) :
    table.ShowsRaw row column := by
  intro vid shown
  unfold shownSlot at shown
  cases cached : table.columnKeyIds[column]? with
  | none => simp [cached] at shown
  | some ids =>
    cases located : table.lines[row]? with
    | none => simp [cached, located] at shown
    | some line =>
      simp only [cached, located] at shown
      obtain ⟨first, id, dict, member, found, inside, value⟩ :=
        firstShownSlot_dictRef healthy (List.mem_of_getElem? located) shown
      have slot : table.getEnumValueId row column = some vid := by
        simp only [getEnumValueId, cached, located, first]
      have text : table.getValue row column = .string (dict.resolve vid) := by
        simp only [getValue, cached, located, value]
      obtain ⟨current, resolved, grows⟩ := before
      rw [own ids cached id member dict found] at resolved
      obtain rfl := Option.some.inj resolved
      rcases misreads.2 with ⟨unknown, chosen, -, known, shows⟩ | ⟨other, bound, same, differs⟩
      · -- The dictionary had the string already, so its id is one of the early ones.
        obtain rfl : dict.resolve vid = chosen := LogValue.string.inj (text.symm.trans shows)
        obtain ⟨early, at_⟩ := Option.isSome_iff_exists.mp known
        have later : dict.find (dict.resolve vid) = some early := Interner.Grows.find grows at_
        rw [EnumDictionary.find_resolve inside] at later
        obtain rfl := Option.some.inj later
        exact absurd (EnumDictionary.find_lt_size at_) (Nat.not_lt_of_le (unknown vid slot))
      · obtain rfl := Option.some.inj (same.symm.trans slot)
        refine differs ?_
        rw [← grows.resolve bound, EnumRowPredicate.ShowsSelected, text]
        simp

end Shown

section Runs

/-- In a run whose operations stay with their dictionaries, a predicate built from a column's one
dictionary, of then or of before, is right about every row that shows a dictionary slot, and about a
raw one exactly if it does not misread it. -/
theorem run_enumPredicate_accepts_iff {parse : TimestampParser} {configuration : LogConfiguration}
    {ops : List TableOp}
    (retains : CleanRun (step parse) (RetainsRows parse) (initial configuration) ops) :
    ∃ final, run parse (initial configuration) ops = some final ∧
      ∀ (selected : List Bytes) (dictionary : EnumDictionary) (row column : Nat),
        final.OneDictionary column →
        final.BuiltBefore column dictionary →
        (((EnumRowPredicate.ofSelection column selected (some dictionary)).matchesRow final row =
          true ↔
            EnumRowPredicate.ShowsSelected selected final row column) ↔
          (final.ShowsRaw row column →
            ¬EnumRowPredicate.Misreads dictionary selected final row column)) := by
  obtain ⟨final, done, healthy⟩ := run_healthy (initial_healthy configuration) retains
  refine ⟨final, done, fun selected dictionary row column own before => ?_⟩
  rw [EnumRowPredicate.matchesRow_built_iff]
  exact ⟨fun right _ => right, fun raw misreads =>
    raw (showsRaw_of_misreads healthy own before misreads) misreads⟩

/-- A row with one byte of its file, at the position of its line number. -/
def overflowRow (lineId : Nat) : LogLine := .ofField 0 lineId 0 (.mmapSlice lineId 1)

/-- A batch of three such rows. -/
def overflowBatch : StreamedBatch := ⟨[overflowRow 0, overflowRow 1, overflowRow 2], [4], [], []⟩

/-- A column that may hold one value, and the values `a`, `b` and `a`. -/
def overflowRun : List TableOp :=
  [.setEnumValueCap 1, .beginStreaming (some (.file (.ofData (bytes "aba\n")))),
    .appendBatch overflowBatch]

/-- A configuration with one pinned column of values. -/
def oneColumnConfiguration : LogConfiguration :=
  ⟨[pinnedColumn (bytes "k") [bytes "k"]], ⟨-1, false⟩⟩

/-- The third row shows `a` like the first, but it was left raw, and selecting `a` rejects it. -/
theorem overflowRun_rejects_selected :
    ¬∀ (configuration : LogConfiguration) (ops : List TableOp) (final : LogTable),
      run (fun _ _ => none) (initial configuration) ops = some final →
        ∀ (selected : List Bytes) (row column : Nat), selected ≠ [] →
          ((EnumRowPredicate.ofSelection column selected
            (final.resolveEnumColumn column).2).matchesRow final row = true ↔
            EnumRowPredicate.ShowsSelected selected final row column) := by
  intro claim
  have wrong := claim oneColumnConfiguration overflowRun _ rfl [bytes "a"] 2 0 (by decide)
  have shows := wrong.mpr ⟨bytes "a", List.mem_singleton_self _, rfl⟩
  exact absurd shows (by decide)

end Runs

end LogTable

end Loglib
