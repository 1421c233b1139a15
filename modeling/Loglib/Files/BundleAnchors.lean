import Loglib.App.AnchorReload
import Loglib.Table.LogLine
import Loglib.Table.LogConfiguration

/-! What a bundle keeps of the configuration: the anchors by row, and time columns that read the
times of its rows. -/

namespace Loglib

/-- `AnchorMatchSlot`. -/
structure AnchorMatchSlot where
  row : Nat := 0
  found : Bool := false
  ambiguous : Bool := false

/-- `AnchorWantedSet`. -/
abbrev AnchorWantedSet := KeyedList AnchorKey AnchorMatchSlot

namespace AnchorWantedSet

/-- One anchor is looked for. An anchor under the same key shares the slot. -/
def want (wanted : AnchorWantedSet) (anchor : AnchorEntry) : AnchorWantedSet :=
  match wanted.find anchor.key with
  | some _ => wanted
  | none => wanted.put anchor.key {}

/-- `BuildAnchorWantedSet`. -/
def build (anchors : List AnchorEntry) : AnchorWantedSet := anchors.foldl want .empty

/-- The key of a row: the canonical locator of its source and its line id. A row without a source
has none, and neither has one whose locator is empty. -/
def rowKey (locators : List Bytes) (line : LogLine) : Option AnchorKey :=
  match locators[line.source]? with
  | none => none
  | some locator => if locator = [] then none else some ⟨locator, line.lineId⟩

/-- One row: the first one of a key is its match, and every later one makes it ambiguous. -/
def visit (locators : List Bytes) (wanted : AnchorWantedSet) (row : LogLine × Nat) :
    AnchorWantedSet :=
  match rowKey locators row.1 with
  | none => wanted
  | some key =>
    match wanted.find key with
    | none => wanted
    | some slot =>
      if slot.found = false then wanted.put key { slot with row := row.2, found := true }
      else wanted.put key { slot with ambiguous := true }

/-- `PopulateAnchorMatches`, with the canonical locators of the sources. -/
def populateAnchorMatches (locators : List Bytes) (wanted : AnchorWantedSet)
    (lines : List LogLine) : AnchorWantedSet :=
  if wanted.entries = [] then wanted else lines.zipIdx.foldl (visit locators) wanted

end AnchorWantedSet

open AnchorWantedSet

/-- `RemapAnchors`. -/
def remapAnchors (locators : List Bytes) (lines : List LogLine) (flattenedLocator : Bytes)
    (anchors : List AnchorEntry) :
    List AnchorEntry :=
  if anchors = [] then []
  else
    let wanted := populateAnchorMatches locators (build anchors) lines
    anchors.filterMap fun anchor =>
      match wanted.find anchor.key with
      | none => none
      | some slot =>
        -- An anchor whose row is not found, or found twice, is dropped.
        if slot.found = false ∨ slot.ambiguous = true then none
        else some { anchor with locator := flattenedLocator, lineId := slot.row }

section Matches

variable {locators : List Bytes} {lines : List LogLine}

/-- The rows of a key. -/
def rowsOf (locators : List Bytes) (lines : List (LogLine × Nat)) (key : AnchorKey) : List Nat :=
  (lines.filter fun row => rowKey locators row.1 = some key).map Prod.snd

/-- The slot of a key once some rows are visited. -/
def slotOf : List Nat → AnchorMatchSlot
  | [] => {}
  | [row] => ⟨row, true, false⟩
  | row :: _ :: _ => ⟨row, true, true⟩

/-- One more row of the key. -/
theorem slotOf_concat (rows : List Nat) (row : Nat) :
    slotOf (rows ++ [row]) =
      if (slotOf rows).found = false then { slotOf rows with row := row, found := true }
      else { slotOf rows with ambiguous := true } := by
  match rows with
  | [] => rfl
  | [_] => rfl
  | _ :: _ :: _ => rfl

/-- Wanted keys are those of the anchors, with empty slots. -/
theorem find_build (anchors : List AnchorEntry) (key : AnchorKey) :
    (build anchors).find key = if key ∈ anchors.map (·.key) then some {} else none := by
  -- The induction is on the anchors that are left; a wanted key stays wanted.
  suffices all : ∀ wanted : AnchorWantedSet, (anchors.foldl want wanted).find key =
      (wanted.find key).or (if key ∈ anchors.map (·.key) then some {} else none) from all .empty
  induction anchors with
  | nil => simp
  | cons anchor anchors ih =>
    intro wanted
    rw [List.foldl_cons, ih]
    have one : (wanted.want anchor).find key = (wanted.find key).or
        (if key = anchor.key then some {} else none) := by
      unfold want
      cases held : wanted.find anchor.key with
      | some slot =>
        by_cases same : key = anchor.key
        · rw [same, held]
          rfl
        · rw [if_neg same, Option.or_none]
      | none =>
        dsimp only
        rw [KeyedList.find_put]
        by_cases same : key = anchor.key
        · rw [if_pos same, if_pos same, same, held]
          rfl
        · rw [if_neg same, if_neg same, Option.or_none]
    rw [one, Option.or_assoc]
    by_cases same : key = anchor.key
    · simp [same]
    · simp [same]

/-- After some rows every wanted key has the slot of its rows. -/
def Visited (locators : List Bytes) (rows : List (LogLine × Nat)) (keys : List AnchorKey)
    (wanted : AnchorWantedSet) : Prop :=
  ∀ key, wanted.find key = if key ∈ keys then some (slotOf (rowsOf locators rows key)) else none

/-- One row is visited. -/
theorem Visited.visit {rows : List (LogLine × Nat)} {keys : List AnchorKey}
    {wanted : AnchorWantedSet}
    (visited : Visited locators rows keys wanted) (row : LogLine × Nat) :
    Visited locators (rows ++ [row]) keys (wanted.visit locators row) := by
  intro key
  have more : rowsOf locators (rows ++ [row]) key =
      rowsOf locators rows key ++ if rowKey locators row.1 = some key then [row.2] else [] := by
    unfold rowsOf
    rw [List.filter_append, List.map_append]
    by_cases same : rowKey locators row.1 = some key <;> simp [same]
  rw [more]
  unfold AnchorWantedSet.visit
  cases keyed : rowKey locators row.1 with
  | none => simpa using visited key
  | some held =>
    dsimp only
    have slot := visited held
    by_cases listed : held ∈ keys
    · rw [if_pos listed] at slot
      rw [slot]
      dsimp only
      -- The slot of the row's key goes on by the row, and the other slots stay.
      have written : (if (slotOf (rowsOf locators rows held)).found = false then
            wanted.put held { slotOf (rowsOf locators rows held) with row := row.2, found := true }
          else wanted.put held { slotOf (rowsOf locators rows held) with ambiguous := true }) =
          wanted.put held (slotOf (rowsOf locators rows held ++ [row.2])) := by
        rw [slotOf_concat]
        split <;> rfl
      rw [written, KeyedList.find_put]
      by_cases same : key = held
      · subst same
        simp [listed]
      · have other : ¬some held = some key := fun equal => same (Option.some.inj equal).symm
        rw [if_neg same, if_neg other, List.append_nil]
        exact visited key
    · rw [if_neg listed] at slot
      rw [slot]
      dsimp only
      rw [visited key]
      by_cases same : key = held
      · subst same
        simp [listed]
      · have other : ¬some held = some key := fun equal => same (Option.some.inj equal).symm
        rw [if_neg other, List.append_nil]

/-- All rows are visited. -/
theorem find_populateAnchorMatches (locators : List Bytes) (lines : List LogLine)
    {anchors : List AnchorEntry}
    (some_ : anchors ≠ []) (key : AnchorKey) :
    (populateAnchorMatches locators (build anchors) lines).find key =
      if key ∈ anchors.map (·.key) then some (slotOf (rowsOf locators lines.zipIdx key))
        else none := by
  have start : Visited locators [] (anchors.map (·.key)) (build anchors) :=
    fun key => find_build anchors key
  have all : ∀ (rest done : List (LogLine × Nat)) (wanted : AnchorWantedSet),
      Visited locators done (anchors.map (·.key)) wanted →
        Visited locators (done ++ rest) (anchors.map (·.key))
          (rest.foldl (AnchorWantedSet.visit locators) wanted) := by
    intro rest
    induction rest with
    | nil => intro done wanted visited; simpa using visited
    | cons row rest ih =>
      intro done wanted visited
      have next := ih (done ++ [row]) _ (visited.visit row)
      rwa [List.append_assoc, List.singleton_append] at next
  -- There is something to look for.
  obtain ⟨first, others, rfl⟩ := List.exists_cons_of_ne_nil some_
  have wanted : (build (first :: others)).entries ≠ [] := by
    intro empty
    have found := find_build (first :: others) first.key
    rw [List.map_cons, if_pos List.mem_cons_self, KeyedList.find, empty] at found
    cases found
  rw [populateAnchorMatches, if_neg wanted]
  have visited := all lines.zipIdx [] _ start
  rw [List.nil_append] at visited
  exact visited key

/-- The row of a list of one row. -/
def onlyRow : List Nat → Option Nat
  | [row] => some row
  | _ => none

/-- There is one if the list is that row. -/
theorem onlyRow_eq_some_iff {rows : List Nat} {row : Nat} :
    onlyRow rows = some row ↔ rows = [row] := by
  cases rows with
  | nil => simp [onlyRow]
  | cons first rest => cases rest <;> simp [onlyRow]

/-- An anchor is kept exactly if its key has one row, which is its new line. -/
theorem remapAnchors_eq (locators : List Bytes) (lines : List LogLine) (flattenedLocator : Bytes)
    (anchors : List AnchorEntry) :
    remapAnchors locators lines flattenedLocator anchors =
      anchors.filterMap fun anchor =>
        (onlyRow (rowsOf locators lines.zipIdx anchor.key)).map fun row =>
        { anchor with locator := flattenedLocator, lineId := row } := by
  unfold remapAnchors
  split
  · rename_i empty
    rw [empty]
    rfl
  · rename_i some_
    refine List.filterMap_congr fun anchor listed => ?_
    rw [find_populateAnchorMatches locators lines some_, if_pos (List.mem_map_of_mem listed)]
    -- The slot says whether there is no row, one row or more.
    cases rowsOf locators lines.zipIdx anchor.key with
    | nil => rfl
    | cons row rows => cases rows <;> rfl

/-- The key of the row at an index. -/
def keyAt (locators : List Bytes) (lines : List LogLine) (row : Nat) : Option AnchorKey :=
  lines[row]?.bind (rowKey locators)

/-- The rows of a key are the indices with the key. -/
theorem mem_rowsOf {key : AnchorKey} {row : Nat} :
    row ∈ rowsOf locators lines.zipIdx key ↔ keyAt locators lines row = some key := by
  simp only [rowsOf, keyAt, List.mem_map, List.mem_filter, decide_eq_true_eq,
    Option.bind_eq_some_iff]
  -- A row is listed with its line, and keyed by it.
  constructor
  · rintro ⟨⟨line, held⟩, ⟨listed, keyed⟩, rfl⟩
    exact ⟨line, List.mem_zipIdx_iff_getElem?.mp listed, keyed⟩
  · rintro ⟨line, found, keyed⟩
    exact ⟨(line, row), ⟨List.mem_zipIdx_iff_getElem?.mpr found, keyed⟩, rfl⟩

/-- A key has one row if no other index has the key. -/
theorem rowsOf_eq_singleton_iff {key : AnchorKey} {row : Nat} :
    rowsOf locators lines.zipIdx key = [row] ↔
      keyAt locators lines row = some key ∧ ∀ other, keyAt locators lines other = some key →
        other = row := by
  simp only [← mem_rowsOf]
  constructor
  · intro alone
    rw [alone]
    exact ⟨List.mem_singleton_self row, fun other => List.mem_singleton.mp⟩
  · rintro ⟨listed, only⟩
    -- No index is listed twice.
    have distinct : (rowsOf locators lines.zipIdx key).Nodup := by
      have indices : (lines.zipIdx.map Prod.snd).Nodup := by
        rw [List.zipIdx_map_snd]
        exact List.nodup_range'
      exact indices.sublist (List.filter_sublist.map Prod.snd)
    have permuted : (rowsOf locators lines.zipIdx key).Perm [row] :=
      (List.perm_ext_iff_of_nodup distinct (List.nodup_singleton row)).mpr fun other =>
        ⟨fun member => List.mem_singleton.mpr (only other member), fun same =>
          (List.mem_singleton.mp same) ▸ listed⟩
    exact List.perm_singleton.mp permuted

/-- The anchors of a bundle that is opened again, after every sequence of steps: a row has the
anchor that it had, if its locator and its line id were those of no other row, and nothing else is
anchored. -/
theorem anchors_reopened (steps : List AnchorManager.AnchorStep) (fresh : AnchorManager)
    (locators : List Bytes)
    (lines : List LogLine) (flattenedLocator : Bytes) :
    let anchors := steps.foldl AnchorManager.step .empty
    let bundled := remapAnchors locators lines flattenedLocator
      (anchors.entriesIncludingRuntimeOnly.map AnchorManager.entryOf)
    let reopened := (AnchorManager.replace fresh bundled).1
    (∀ row value, reopened.find ⟨flattenedLocator, row⟩ = some value ↔
      ∃ key, keyAt locators lines row = some key ∧ (∀ other, keyAt locators lines other = some key →
        other = row) ∧
        anchors.find key = some value) ∧
      ∀ key, key.locator ≠ flattenedLocator → reopened.find key = none := by
  intro anchors bundled reopened
  have tidy : AnchorManager.NotesTidy anchors := AnchorManager.notesTidy_run steps
  -- An entry of the bundle is that of an anchor whose key has one row.
  have entries {entry : AnchorEntry} : entry ∈ bundled ↔
    ∃ key value row, anchors.find key = some value ∧
      rowsOf locators lines.zipIdx key = [row] ∧
      entry = { AnchorManager.entryOf (key, value) with
        locator := flattenedLocator
        lineId := row } := by
    show entry ∈ remapAnchors _ _ _ _ ↔ _
    rw [remapAnchors_eq, List.mem_filterMap]
    constructor
    · rintro ⟨anchor, listed, kept⟩
      obtain ⟨⟨key, value⟩, member, rfl⟩ := List.mem_map.mp listed
      obtain ⟨row, alone, rfl⟩ := Option.map_eq_some_iff.mp kept
      exact ⟨key, value, row, AnchorManager.mem_entriesIncludingRuntimeOnly.mp member,
        onlyRow_eq_some_iff.mp alone, rfl⟩
    · rintro ⟨key, value, row, found, alone, rfl⟩
      refine ⟨_, List.mem_map_of_mem (AnchorManager.mem_entriesIncludingRuntimeOnly.mpr found), ?_⟩
      have keyed : (AnchorManager.entryOf (key, value)).key = key := rfl
      rw [keyed, onlyRow_eq_some_iff.mpr alone, Option.map_some]
  have finds (key : AnchorKey) := AnchorManager.find_replace fresh bundled key
  constructor
  · intro row value
    show reopened.find _ = _ ↔ _
    rw [finds, Option.map_eq_some_iff]
    constructor
    · rintro ⟨entry, found, rfl⟩
      have same := List.find?_some found
      obtain ⟨key, held, kept, finds, alone, rfl⟩ :=
        entries.mp (List.mem_reverse.mp (List.mem_of_find?_eq_some found))
      obtain rfl : kept = row := by simpa [AnchorEntry.key] using same
      obtain ⟨here, only⟩ := rowsOf_eq_singleton_iff.mp alone
      refine ⟨key, here, only, ?_⟩
      -- Colour and note are those of the anchor.
      have loaded := (AnchorManager.value_entryOf key (tidy key held finds)).2.2
      rw [finds]
      exact congrArg some loaded.symm
    · rintro ⟨key, here, only, found⟩
      have alone := rowsOf_eq_singleton_iff.mpr ⟨here, only⟩
      have listed := entries.mpr ⟨key, value, row, found, alone, rfl⟩
      cases located : bundled.reverse.find? (·.key = (⟨flattenedLocator, row⟩ : AnchorKey)) with
      | none =>
        exact absurd (decide_eq_true rfl)
          (List.find?_eq_none.mp located _ (List.mem_reverse.mpr listed))
      | some entry =>
        have same := List.find?_some located
        obtain ⟨other, held, kept, finds, one, rfl⟩ :=
          entries.mp (List.mem_reverse.mp (List.mem_of_find?_eq_some located))
        obtain rfl : kept = row := by simpa [AnchorEntry.key] using same
        -- The row has one key.
        have equal := (rowsOf_eq_singleton_iff.mp one).1
        rw [here] at equal
        obtain rfl := Option.some.inj equal
        obtain rfl := Option.some.inj (finds.symm.trans found)
        exact ⟨_, rfl, (AnchorManager.value_entryOf key (tidy key held found)).2.2⟩
  · intro key other
    show reopened.find _ = _
    rw [finds, Option.map_eq_none_iff, List.find?_eq_none]
    intro entry listed same
    obtain ⟨held, value, row, -, -, rfl⟩ := entries.mp (List.mem_reverse.mp listed)
    have located : (⟨flattenedLocator, row⟩ : AnchorKey) = key := of_decide_eq_true same
    exact other (by rw [← located])

end Matches

section Columns

/-- The parse format of the timestamps of a bundle. -/
def BUNDLE_TIME_PARSE_FORMAT : Bytes := bytes "%FT%T"

/-- One column of a bundle: a time column gets the format of the bundle in front, unless
it has it. -/
def normalizeParseFormats (column : Column) : Column :=
  if column.type = .time ∧ column.parseFormats.contains BUNDLE_TIME_PARSE_FORMAT = false then
    { column with parseFormats := BUNDLE_TIME_PARSE_FORMAT :: column.parseFormats }
  else column

/-- `NormalizeTimeColumnParseFormats`. -/
def normalizeTimeColumnParseFormats (configuration : LogConfiguration) : LogConfiguration :=
  { configuration with columns := configuration.columns.map normalizeParseFormats }

/-- Afterwards every time column has the format of the bundle, each column ends in the formats that it
had, in their order, and another run changes nothing. -/
theorem normalizeTimeColumnParseFormats_spec (configuration : LogConfiguration) :
    (∀ column ∈ (normalizeTimeColumnParseFormats configuration).columns,
        column.type = .time → BUNDLE_TIME_PARSE_FORMAT ∈ column.parseFormats) ∧
      List.Forall₂ (fun before after : Column => before.parseFormats <:+ after.parseFormats)
        configuration.columns (normalizeTimeColumnParseFormats configuration).columns ∧
      normalizeTimeColumnParseFormats (normalizeTimeColumnParseFormats configuration) =
        normalizeTimeColumnParseFormats configuration := by
  -- A time column gets the format, unless it has it.
  have has (column : Column) (time : (normalizeParseFormats column).type = .time) :
      BUNDLE_TIME_PARSE_FORMAT ∈ (normalizeParseFormats column).parseFormats := by
    unfold normalizeParseFormats at time ⊢
    split
    · exact List.mem_cons_self
    · rename_i kept
      rw [if_neg kept] at time
      exact not_not.mp fun missing => kept ⟨time, by simpa using missing⟩
  refine ⟨?_, ?_, ?_⟩
  · intro column listed
    obtain ⟨before, -, rfl⟩ := List.mem_map.mp listed
    exact has before
  · -- The format comes in front of the others, or nothing comes.
    apply List.forall₂_map_right_iff.mpr
    refine List.forall₂_same.mpr fun column _ => ?_
    unfold normalizeParseFormats
    split
    · exact List.suffix_cons ..
    · exact List.suffix_rfl
  · -- A second pass finds it there.
    have again (column : Column) : normalizeParseFormats (normalizeParseFormats column) =
        normalizeParseFormats column := by
      conv_lhs => unfold normalizeParseFormats
      exact if_neg fun both =>
        Bool.false_ne_true (both.2.symm.trans (List.contains_iff_mem.mpr (has column both.1)))
    simp [normalizeTimeColumnParseFormats, again]

end Columns

end Loglib
