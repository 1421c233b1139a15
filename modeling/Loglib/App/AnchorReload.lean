import Loglib.App.AnchorManager
import Loglib.App.NoteSanitiser
import Loglib.Basic.Runs

/-! Anchors with their notes over whole runs, and how they come back from the entries that
are saved. -/

namespace Loglib

/-- `LogConfiguration::AnchorEntry`. -/
structure AnchorEntry where
  locator : Bytes
  lineId : Nat
  colorIndex : UInt8
  note : Bytes
deriving DecidableEq

deriving instance DecidableEq for AnchorValue

namespace AnchorEntry

/-- The key of an entry. -/
def key (entry : AnchorEntry) : AnchorKey := ⟨entry.locator, entry.lineId⟩

/-- The palette ends in front of the colour. -/
def clamped (entry : AnchorEntry) : Bool := anchorPaletteSize ≤ entry.colorIndex.toNat

/-- The value that is taken over: an unknown colour becomes the last one, and the note is
sanitised. -/
def value (entry : AnchorEntry) : AnchorValue where
  colorIndex := AnchorManager.clampColor (if entry.clamped then UInt8.ofNat (anchorPaletteSize - 1)
    else entry.colorIndex)
  note := AnchorManager.sanitiseNote entry.note

end AnchorEntry

/-- What `Replace` has taken over so far. -/
structure AnchorLoading where
  anchors : AnchorManager
  clampedByKey : KeyedList AnchorKey Bool

namespace AnchorManager

/-- One entry of a configuration; a later one under the same key wins. -/
def loadEntry (loading : AnchorLoading) (entry : AnchorEntry) : AnchorLoading where
  anchors := loading.anchors.put entry.key entry.value
  clampedByKey := loading.clampedByKey.put entry.key entry.clamped

/-- The comparison of two unordered maps. -/
def sameAnchors (first second : AnchorManager) : Bool :=
  first.entries.length = second.entries.length && first.entries.all fun (key, value) =>
    second.find key = some value

/-- `Replace`: the anchors, the signal and the number of clamped colours. -/
def replace (anchors : AnchorManager) (entries : List AnchorEntry) :
    AnchorManager × Option AnchorSignal × Nat :=
  let loaded := entries.foldl loadEntry ⟨.empty, .empty⟩
  (loaded.anchors, if sameAnchors loaded.anchors anchors then none else some .anchorsReset,
    loaded.clampedByKey.entries.countP (·.2))

/-- `SetAnchorNote`, and whether the note has changed. -/
def setAnchorNote (anchors : AnchorManager) (key : AnchorKey) (note : Bytes) :
    AnchorManager × Bool :=
  match anchors.find key with
  | none => (anchors, false)
  | some value =>
    if value.note = sanitiseNote note then (anchors, false)
    else (anchors.put key { value with note := sanitiseNote note }, true)

/-- An anchor as it is saved. -/
def entryOf (anchor : AnchorKey × AnchorValue) : AnchorEntry :=
  ⟨anchor.1.locator, anchor.1.lineId, UInt8.ofNat anchor.2.colorIndex, anchor.2.note⟩

/-- `Entries`, as entries of a configuration. -/
def configurationEntries (anchors : AnchorManager) : List AnchorEntry :=
  anchors.savedEntries.map entryOf

section Loading

variable {loading : AnchorLoading} {entries : List AnchorEntry}

/-- The last entry of a key is what is loaded. -/
theorem find_loaded (entries : List AnchorEntry) (loading : AnchorLoading) (key : AnchorKey) :
    (entries.foldl loadEntry loading).anchors.find key =
        ((entries.reverse.find? (·.key = key)).map (·.value)).or (loading.anchors.find key) ∧
      (entries.foldl loadEntry loading).clampedByKey.find key =
        ((entries.reverse.find? (·.key = key)).map (·.clamped)).or
          (loading.clampedByKey.find key) := by
  induction entries generalizing loading with
  | nil => exact ⟨rfl, rfl⟩
  | cons entry entries ih =>
    obtain ⟨anchors, clamped⟩ := ih (loadEntry loading entry)
    rw [List.foldl_cons, anchors, clamped, List.reverse_cons, List.find?_append]
    -- The entry counts if no later one has its key.
    cases later : entries.reverse.find? (·.key = key) with
    | some found => exact ⟨rfl, rfl⟩
    | none =>
      by_cases same : key = entry.key
      · subst same
        simp [loadEntry, KeyedList.find_put]
      · simp [loadEntry, KeyedList.find_put, same, Ne.symm same]

/-- The anchor of a key after `Replace` is the last entry of the key. -/
theorem find_replace (anchors : AnchorManager) (entries : List AnchorEntry) (key : AnchorKey) :
    (anchors.replace entries).1.find key = (entries.reverse.find? (·.key = key)).map (·.value) := by
  have loaded := (find_loaded entries ⟨.empty, .empty⟩ key).1
  have nothing : (KeyedList.empty : AnchorManager).find key = none := rfl
  rw [nothing, Option.or_none] at loaded
  exact loaded

end Loading

section Runs

/-- Every note is tidy. -/
def NotesTidy (anchors : AnchorManager) : Prop := ∀ key value, anchors.find key = some value →
    TidyNote value.note

/-- What the user and the configurations do to the anchors. -/
inductive AnchorStep where
  | setAnchor (key : AnchorKey) (colorIndex : UInt8)
  | setAnchors (keys : List AnchorKey) (colorIndex : UInt8)
  | setAnchorNote (key : AnchorKey) (note : Bytes)
  | removeAnchor (key : AnchorKey)
  | removeAnchors (keys : List AnchorKey)
  | clearAll
  | replace (entries : List AnchorEntry)

/-- The anchors after a step. -/
def step (anchors : AnchorManager) : AnchorStep → AnchorManager
  | .setAnchor key colorIndex => (anchors.setAnchor key colorIndex).1
  | .setAnchors keys colorIndex => (anchors.setAnchors keys colorIndex).1
  | .setAnchorNote key note => (anchors.setAnchorNote key note).1
  | .removeAnchor key => (anchors.removeAnchor key).1
  | .removeAnchors keys => (anchors.removeAnchors keys).1
  | .clearAll => anchors.clearAll.1
  | .replace entries => (anchors.replace entries).1

variable {anchors : AnchorManager}

/-- The empty note is tidy. -/
theorem tidyNote_nil : TidyNote [] := tidyNote_sanitiseNote []

/-- A tidy note may be put under a key. -/
theorem NotesTidy.put (tidy : NotesTidy anchors) (key : AnchorKey) {value : AnchorValue}
    (note : TidyNote value.note) :
    NotesTidy (KeyedList.put anchors key value) := by
  intro other held found
  rw [KeyedList.find_put] at found
  split at found
  · obtain rfl := Option.some.inj found
    exact note
  · exact tidy other held found

/-- A colour keeps the notes. -/
theorem NotesTidy.recolor (tidy : NotesTidy anchors) (color : AnchorColor) (key : AnchorKey) :
    NotesTidy (AnchorManager.recolor color anchors key).1 := by
  unfold AnchorManager.recolor
  -- A new anchor has an empty note, a recoloured one keeps its own.
  cases found : anchors.find key with
  | none => exact tidy.put key tidyNote_nil
  | some value =>
    dsimp only
    split
    · exact tidy
    · exact tidy.put key (tidy key value found)

/-- So do the colours of several keys. -/
theorem NotesTidy.setAnchors (tidy : NotesTidy anchors) (keys : List AnchorKey)
    (colorIndex : UInt8) :
    NotesTidy (anchors.setAnchors keys colorIndex).1 := by
  unfold AnchorManager.setAnchors
  -- Each key keeps them, whatever has been counted before.
  apply foldl_invariant (fun change : BulkChange => NotesTidy change.anchors)
  · intro change key _ kept
    dsimp only
    split
    · exact kept.recolor _ key
    · exact kept
  · exact tidy

/-- What is found after a removal was found before. -/
theorem NotesTidy.of_find {after : AnchorManager} (tidy : NotesTidy anchors)
    (found : ∀ key value, after.find key = some value → anchors.find key = some value) :
    NotesTidy after :=
  fun key value held => tidy key value (found key value held)

/-- Every step keeps the notes tidy. -/
theorem NotesTidy.step (tidy : NotesTidy anchors) (change : AnchorStep) :
    NotesTidy (anchors.step change) := by
  cases change with
  | setAnchor key colorIndex => exact tidy.recolor _ key
  | setAnchors keys colorIndex => exact tidy.setAnchors keys colorIndex
  | setAnchorNote key note =>
    simp only [AnchorManager.step, setAnchorNote]
    cases found : anchors.find key with
    | none => exact tidy
    | some value =>
      dsimp only
      split
      · exact tidy
      · exact tidy.put key (tidyNote_sanitiseNote note)
  | removeAnchor key =>
    simp only [AnchorManager.step, AnchorManager.removeAnchor]
    split
    · refine tidy.of_find fun other value held => ?_
      rw [KeyedList.find_erase] at held
      split at held
      · cases held
      · exact held
    · exact tidy
  | removeAnchors keys =>
    refine tidy.of_find fun other value held => ?_
    rw [AnchorManager.step, find_removeAnchors] at held
    split at held
    · cases held
    · exact held
  | clearAll => exact fun _ _ held => by cases held
  | replace entries =>
    -- Whatever is loaded has been sanitised.
    intro key value held
    rw [AnchorManager.step, find_replace] at held
    obtain ⟨entry, -, rfl⟩ := Option.map_eq_some_iff.mp held
    exact tidyNote_sanitiseNote entry.note

/-- After every sequence of steps the notes are tidy. -/
theorem notesTidy_run (steps : List AnchorStep) : NotesTidy (steps.foldl step .empty) := by
  suffices all : ∀ anchors : AnchorManager, NotesTidy anchors →
    NotesTidy (steps.foldl step anchors) from
    all _ fun _ _ held => by cases held
  induction steps with
  | nil => exact fun _ tidy => tidy
  | cons change steps ih => exact fun anchors tidy => ih _ (tidy.step change)

end Runs

section Saved

variable {anchors : AnchorManager}

/-- The order of the saved entries. -/
theorem entryLe_iff (first second : AnchorKey × AnchorValue) : entryLe first second = true ↔
    toLex (byteKey first.1.locator, first.1.lineId) ≤ toLex
      (byteKey second.1.locator, second.1.lineId) := by
  unfold entryLe
  rw [Prod.Lex.toLex_le_toLex]
  -- Locators are compared first, line ids break the tie.
  by_cases same : first.1.locator = second.1.locator
  · simp [same]
  · have apart : byteKey first.1.locator ≠ byteKey second.1.locator :=
      fun equal => same (byteKey_injective equal)
    simp [same, apart, lt_iff_le_and_ne]

/-- Where an entry is listed. -/
def rank (key : AnchorKey) : List Nat ×ₗ Nat := toLex (byteKey key.locator, key.lineId)

/-- No two keys are listed at one place. -/
theorem rank_injective : Function.Injective rank := by
  -- Both parts of the key can be read off its rank.
  intro first second same
  obtain ⟨locator, lineId⟩ := Prod.mk.inj (toLex_inj.mp same)
  obtain ⟨firstLocator, firstLine⟩ := first
  obtain ⟨secondLocator, secondLine⟩ := second
  obtain rfl := byteKey_injective locator
  obtain rfl : firstLine = secondLine := lineId
  rfl

/-- The saved anchors are those of files. -/
theorem mem_savedEntries {key : AnchorKey} {value : AnchorValue} :
    (key, value) ∈ anchors.savedEntries ↔ anchors.find key = some value ∧ key.locator ≠ [] := by
  rw [savedEntries, List.mem_insertionSort, List.mem_filter, KeyedList.mem_entries_iff]
  simp

/-- They are sorted. -/
theorem savedEntries_le (anchors : AnchorManager) :
    anchors.savedEntries.Pairwise fun first second => rank first.1 ≤ rank second.1 := by
  -- The order is total and transitive, so sorting leaves a sorted list.
  have total : Std.Total fun first second : AnchorKey × AnchorValue =>
      entryLe first second = true :=
    ⟨fun first second => by rw [entryLe_iff, entryLe_iff]; exact le_total _ _⟩
  have trans : IsTrans (AnchorKey × AnchorValue) fun first second => entryLe first second = true :=
    ⟨fun first second third => by simp only [entryLe_iff]; exact le_trans⟩
  refine (List.pairwise_insertionSort (fun first second => entryLe first second = true)
    (anchors.entries.filter fun entry => entry.1.locator ≠ [])).imp fun {first second} before => ?_
  exact (entryLe_iff first second).mp before

/-- No key is saved twice. -/
theorem nodup_savedEntries (anchors : AnchorManager) :
    (anchors.savedEntries.map Prod.fst).Nodup := by
  have filtered : ((anchors.entries.filter fun entry => entry.1.locator ≠ []).map Prod.fst).Nodup :=
    anchors.distinct.sublist (List.filter_sublist.map Prod.fst)
  exact ((List.perm_insertionSort _ _).map Prod.fst).nodup_iff.mpr filtered

/-- They are listed in strictly ascending order. -/
theorem savedEntries_lt (anchors : AnchorManager) :
    anchors.savedEntries.Pairwise fun first second => rank first.1 < rank second.1 := by
  have apart := List.pairwise_map.mp (nodup_savedEntries anchors)
  exact ((savedEntries_le anchors).and apart).imp fun both => lt_of_le_of_ne both.1 fun same =>
    both.2 (rank_injective same)

/-- What is saved depends on what the keys of files find, and not on the order of the map. -/
theorem savedEntries_congr {other : AnchorManager}
    (same : ∀ key, key.locator ≠ [] → anchors.find key = other.find key) :
    anchors.savedEntries = other.savedEntries := by
  have members : ∀ entry, entry ∈ anchors.savedEntries ↔ entry ∈ other.savedEntries := by
    rintro ⟨key, value⟩
    rw [mem_savedEntries, mem_savedEntries]
    exact and_congr_left fun file => by rw [same key file]
  have distinct (anchors : AnchorManager) : anchors.savedEntries.Nodup :=
    (nodup_savedEntries anchors).of_map
  have permuted := (List.perm_ext_iff_of_nodup (distinct anchors) (distinct other)).mpr members
  -- Two ascending lists of the same entries are one list.
  refine List.Perm.eq_of_pairwise (fun first second listed listedToo before behind =>
    ?_) (savedEntries_le anchors)
    (savedEntries_le other) permuted
  have sameKey := rank_injective (le_antisymm before behind)
  obtain ⟨key, value⟩ := first
  obtain ⟨otherKey, otherValue⟩ := second
  obtain rfl : key = otherKey := sameKey
  have found := (mem_savedEntries.mp listed).1
  rw [(mem_savedEntries.mp ((members _).mpr listedToo)).1] at found
  rw [Option.some.inj found]

/-- A saved anchor with a tidy note is loaded as it was, and its colour is not clamped. -/
theorem value_entryOf (key : AnchorKey) {value : AnchorValue} (tidy : TidyNote value.note) :
    (entryOf (key, value)).key = key ∧ (entryOf (key, value)).clamped = false ∧
      (entryOf (key, value)).value = value := by
  obtain ⟨color, note⟩ := value
  have small := color.isLt
  have back : (UInt8.ofNat color).toNat = color := by
    simp only [anchorPaletteSize] at small
    rw [UInt8.toNat_ofNat']
    omega
  have inside : (entryOf (key, ⟨color, note⟩)).clamped = false := by
    simp only [entryOf, AnchorEntry.clamped, back]
    exact decide_eq_false (by omega)
  refine ⟨rfl, inside, ?_⟩
  rw [AnchorEntry.value, inside]
  simp only [entryOf, sanitiseNote_of_tidy tidy, AnchorValue.mk.injEq, and_true,
    Bool.false_eq_true, if_false]
  -- The colour is one of the palette.
  refine Fin.ext ?_
  simp only [clampColor, back]
  omega

/-- An entry that is found in the saved ones is that of its anchor. -/
theorem find_configurationEntries (tidy : NotesTidy anchors) (key : AnchorKey) :
    ((anchors.configurationEntries.reverse.find? (·.key = key)).map fun entry =>
      (entry.value, entry.clamped)) =
      if key.locator = [] then none else (anchors.find key).map (·, false) := by
  cases found : anchors.configurationEntries.reverse.find? (·.key = key) with
  | some entry =>
    have listed := List.mem_reverse.mp (List.mem_of_find?_eq_some found)
    have keyed := List.find?_some found
    obtain ⟨⟨held, value⟩, member, rfl⟩ := List.mem_map.mp listed
    obtain ⟨finds, file⟩ := mem_savedEntries.mp member
    obtain ⟨same, inside, loaded⟩ := value_entryOf held (tidy held value finds)
    obtain rfl : held = key := by simpa [same] using keyed
    rw [if_neg file, finds, Option.map_some, Option.map_some, inside, loaded]
  | none =>
    -- A key of a file without an entry has no anchor.
    by_cases file : key.locator = []
    · rw [if_pos file, Option.map_none]
    · cases finds : anchors.find key with
      | none => rw [if_neg file, Option.map_none, Option.map_none]
      | some value =>
        have member := mem_savedEntries.mpr ⟨finds, file⟩
        have none_ := List.find?_eq_none.mp found (entryOf (key, value))
          (List.mem_reverse.mpr (List.mem_map_of_mem member))
        exact absurd (decide_eq_true (value_entryOf key (tidy key value finds)).1) none_

/-- After every sequence of steps, the saved entries are in strictly ascending order, and loading
them into any other anchors gives the anchors of files with their colours and notes, clamps nothing,
saves the same entries again, and is silent the second time. -/
theorem replace_configurationEntries (steps : List AnchorStep) (other : AnchorManager) :
    let anchors := steps.foldl step .empty
    let saved := anchors.configurationEntries
    let reloaded := (other.replace saved).1
    (saved.Pairwise fun first second => rank first.key < rank second.key) ∧
      (∀ key, reloaded.find key = if key.locator = [] then none else anchors.find key) ∧
      (other.replace saved).2.2 = 0 ∧ reloaded.configurationEntries = saved ∧
        (reloaded.replace saved).2.1 = none := by
  intro anchors saved reloaded
  have tidy : NotesTidy anchors := notesTidy_run steps
  have finds : ∀ key, reloaded.find key = if key.locator = [] then none else anchors.find key := by
    intro key
    have entries := congrArg (Option.map Prod.fst) (find_configurationEntries tidy key)
    simp only [Option.map_map] at entries
    rw [find_replace]
    refine entries.trans ?_
    split
    · rfl
    · rw [Option.map_map]
      exact Option.map_id'
  refine ⟨?_, finds, ?_, ?_, ?_⟩
  · exact List.pairwise_map.mpr (savedEntries_lt anchors)
  · -- Each key has been loaded with a colour of the palette.
    refine List.countP_eq_zero.mpr fun entry member => ?_
    obtain ⟨key, clamped⟩ := entry
    have loaded := (find_loaded saved ⟨.empty, .empty⟩ key).2
    rw [KeyedList.mem_entries_iff.mp member,
      show (KeyedList.empty : KeyedList AnchorKey Bool).find key = none from rfl,
      Option.or_none] at loaded
    have entries := congrArg (Option.map Prod.snd) (find_configurationEntries tidy key)
    simp only [Option.map_map] at entries
    have same := loaded.trans entries
    split at same
    · cases same
    · cases held : anchors.find key with
      | none =>
        rw [held] at same
        cases same
      | some value =>
        rw [held] at same
        simpa using Option.some.inj same
  · exact congrArg (List.map entryOf) (savedEntries_congr fun key file =>
      by rw [finds key, if_neg file])
  · -- The anchors are the same maps.
    have same : sameAnchors reloaded reloaded = true := by
      simp only [sameAnchors, decide_true, Bool.true_and]
      exact List.all_eq_true.mpr fun entry member =>
        decide_eq_true (KeyedList.mem_entries_iff.mp member)
    exact if_pos same

end Saved

end AnchorManager

end Loglib
