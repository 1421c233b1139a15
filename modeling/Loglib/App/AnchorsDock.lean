import Loglib.App.AnchorReload
import Loglib.Basic.Runs
import Loglib.Basic.SortedView

/-! The dock that lists the anchors of files: it follows the anchors item by item, and shows what a
rebuild would show. -/

namespace Loglib

/-- The locators of a source, as they are compared and as they are displayed. -/
structure SourcePaths where
  locatorDedupKeys : List Bytes
  locators : List Bytes

/-- What the tooltip of an item shows. -/
structure AnchorTooltip where
  colorIndex : AnchorColor
  lineId : Nat
  displayPath : Bytes
  note : Bytes
deriving DecidableEq

/-- An item of the tree: its key, what the swatch and the label are made of, the note
cell, and the tooltip. -/
structure AnchorItem (θ : Type*) where
  key : AnchorKey
  swatch : Option (θ × AnchorColor)
  labelPath : Bytes
  note : Bytes
  tooltip : AnchorTooltip
deriving DecidableEq

/-- The state of the dock, with what it reads: the anchors of the bound session, the paths of its
source, and the theme. -/
structure AnchorsDock (θ : Type*) where
  anchors : Option AnchorManager
  source : SourcePaths
  theme : Option θ
  isHidden : Bool
  perceivedVisible : Bool
  items : List (AnchorItem θ)
  clearAllEnabled : Bool

/-- `DisplayPathForLocator`. -/
def displayPathForLocator (source : SourcePaths) (locator : Bytes) : Bytes :=
  if locator = [] then locator
  else (((source.locatorDedupKeys.zip source.locators).find? (·.1 = locator)).map (·.2)).getD
    locator

/-- What a call to the manager emits. -/
inductive DockSignal where
  | anchorChanged (key : AnchorKey)
  | anchorNoteChanged (key : AnchorKey)
  | anchorsReset

/-- A signal that the colour listeners get too. -/
def DockSignal.ofAnchor : AnchorSignal → DockSignal
  | .anchorChanged key => .anchorChanged key
  | .anchorsReset => .anchorsReset

namespace AnchorManager

/-- What a step emits. -/
def emitted (anchors : AnchorManager) : AnchorStep → Option DockSignal
  | .setAnchor key colorIndex => (anchors.setAnchor key colorIndex).2.map .ofAnchor
  | .setAnchors keys colorIndex => (anchors.setAnchors keys colorIndex).2.map .ofAnchor
  | .setAnchorNote key note =>
    if (anchors.setAnchorNote key note).2 then some (.anchorNoteChanged key) else none
  | .removeAnchor key => (anchors.removeAnchor key).2.map .ofAnchor
  | .removeAnchors keys => (anchors.removeAnchors keys).2.map .ofAnchor
  | .clearAll => anchors.clearAll.2.map .ofAnchor
  | .replace entries => (anchors.replace entries).2.1.map .ofAnchor

end AnchorManager

namespace AnchorManager

section Emissions

variable {before after : AnchorManager}

/-- What a signal says of the anchors before and after a call. -/
inductive Emits (before after : AnchorManager) : Option DockSignal → Prop where
  | nothing (same : ∀ key, after.find key = before.find key)
      (empty : after.entries.isEmpty = before.entries.isEmpty) :
      Emits before after none
  | changed (key : AnchorKey) (others : ∀ other, other ≠ key → after.find other = before.find other)
      (note : ∀ was now, before.find key = some was → after.find key = some now →
        now.note = was.note) :
      Emits before after (some (.anchorChanged key))
  | noted (key : AnchorKey) (others : ∀ other, other ≠ key → after.find other = before.find other)
      (was now : AnchorValue)
      (held : before.find key = some was) (holds : after.find key = some now)
        (color : now.colorIndex = was.colorIndex) :
      Emits before after (some (.anchorNoteChanged key))
  | reset : Emits before after (some .anchorsReset)

/-- Anchors that are on both sides of a call have kept their notes. -/
def NotesKept (before after : AnchorManager) : Prop :=
  ∀ key was now, before.find key = some was → after.find key = some now → now.note = was.note

/-- Anchors that were there before have kept their notes, if they are there. -/
theorem NotesKept.of_find
    (same : ∀ key now, after.find key = some now → before.find key = some now) :
    NotesKept before after := by
  intro key was now held holds
  rw [same key now holds] at held
  rw [Option.some.inj held]

/-- A colour change keeps the notes, and every anchor. -/
theorem find_recolor (color : AnchorColor) (anchors : AnchorManager) {key other : AnchorKey}
    {was : AnchorValue}
    (held : anchors.find other = some was) :
    ∃ now, (recolor color anchors key).1.find other = some now ∧ now.note = was.note := by
  -- A recoloured anchor keeps its note, every other one keeps everything.
  by_cases differs : other = key
  · subst differs
    unfold recolor
    rw [held]
    dsimp only
    split
    · exact ⟨was, held, rfl⟩
    · exact ⟨{ was with colorIndex := color }, by rw [KeyedList.find_put, if_pos rfl], rfl⟩
  · exact ⟨was, by rw [find_recolor_of_ne color anchors differs, held], rfl⟩

/-- So do the colour changes of a bulk call. -/
theorem find_setAnchors (anchors : AnchorManager) (keys : List AnchorKey) (colorIndex : UInt8)
    {key : AnchorKey} {was : AnchorValue}
    (held : anchors.find key = some was) :
    ∃ now, (anchors.setAnchors keys colorIndex).1.find key = some now ∧ now.note = was.note := by
  unfold setAnchors
  dsimp only
  -- Each key of the list is recoloured in turn, and no note is touched.
  apply foldl_invariant (fun change : BulkChange => ∃ now, change.anchors.find key = some now ∧
    now.note = was.note)
  · intro change other _ kept
    obtain ⟨now, holds, note⟩ := kept
    obtain ⟨next, held, same⟩ :=
      @find_recolor (clampColor colorIndex) change.anchors other key now holds
    split
    · exact ⟨next, held, same.trans note⟩
    · exact ⟨now, holds, note⟩
  · exact ⟨was, held, rfl⟩

/-- A signal of the manager, with the notes kept, is a signal for the dock. -/
theorem Announces.emits {result : AnchorManager × Option AnchorSignal}
    (announces : Announces before result)
    (kept : NotesKept before result.1) : Emits before result.1 (result.2.map .ofAnchor) := by
  cases announces with
  | nothing => exact .nothing (fun _ => rfl) rfl
  | one after key others => exact .changed key others (kept key)
  | all after => exact .reset

/-- Two maps that compare as the same find the same. -/
theorem find_of_sameAnchors (same : sameAnchors after before = true) (key : AnchorKey) :
    after.find key = before.find key := by
  obtain ⟨length, all⟩ := Bool.and_eq_true_iff.mp same
  have within : after.entries ⊆ before.entries := by
    intro entry listed
    have found := List.all_eq_true.mp all entry listed
    exact KeyedList.mem_entries_iff.mpr (of_decide_eq_true found)
  have once : after.entries.Nodup := after.distinct.of_map
  have whole := (once.subperm within).perm_of_length_le (le_of_eq (of_decide_eq_true length).symm)
  -- The same entries are found on both sides.
  apply Option.ext
  intro value
  rw [← KeyedList.mem_entries_iff, ← KeyedList.mem_entries_iff]
  exact whole.mem_iff

/-- A note call leaves the anchors as they are said to be, or puts the sanitised note
under its key. -/
theorem setAnchorNote_cases (anchors : AnchorManager) (key : AnchorKey) (note : Bytes) :
    (anchors.setAnchorNote key note = (anchors, false) ∧ ∀ value, anchors.find key = some value →
      value.note = sanitiseNote note) ∨
      ∃ value, anchors.find key = some value ∧
        anchors.setAnchorNote key note = (anchors.put key { value with note := sanitiseNote note },
          true) := by
  unfold setAnchorNote
  cases held : anchors.find key with
  | none => exact .inl ⟨rfl, fun value found => (by cases found)⟩
  | some value =>
    dsimp only
    -- A note that is the same already is not written again.
    split
    · rename_i same
      refine .inl ⟨rfl, fun other found => ?_⟩
      rw [← Option.some.inj found]
      exact same
    · exact .inr ⟨value, rfl, rfl⟩

/-- Every call emits what it has changed. -/
theorem emitted_emits (anchors : AnchorManager) (call : AnchorStep) :
    Emits anchors (anchors.step call) (anchors.emitted call) := by
  cases call with
  -- Colouring keeps the notes, so one signal about the key is enough.
  | setAnchor key colorIndex =>
    apply (setAnchor_announces anchors key colorIndex).emits
    intro other was now held holds
    obtain ⟨kept, found, note⟩ := @find_recolor (clampColor colorIndex) anchors key other was held
    rw [← Option.some.inj (found.symm.trans holds)]
    exact note
  | setAnchors keys colorIndex =>
    apply (setAnchors_announces anchors keys colorIndex).emits
    intro other was now held holds
    obtain ⟨kept, found, note⟩ := find_setAnchors anchors keys colorIndex held
    rw [← Option.some.inj (found.symm.trans holds)]
    exact note
  -- A note is announced with its key, unless it is the one that is there.
  | setAnchorNote key note =>
    simp only [emitted, step]
    rcases setAnchorNote_cases anchors key note with ⟨same, _⟩ | ⟨value, held, put⟩
    · rw [same]
      exact .nothing (fun _ => rfl) rfl
    · rw [put]
      refine .noted key (fun other differs => ?_) value { value with note := sanitiseNote note }
        held ?_ rfl
      · rw [KeyedList.find_put, if_neg differs]
      · rw [KeyedList.find_put, if_pos rfl]
  -- Removing takes anchors away and rewrites none.
  | removeAnchor key =>
    apply (removeAnchor_announces anchors key).emits
    apply NotesKept.of_find
    intro other now holds
    unfold removeAnchor at holds
    split at holds
    · rw [KeyedList.find_erase] at holds
      split at holds
      · cases holds
      · exact holds
    · exact holds
  | removeAnchors keys =>
    apply (removeAnchors_announces anchors keys).emits
    apply NotesKept.of_find
    intro other now holds
    rw [find_removeAnchors] at holds
    split at holds
    · cases holds
    · exact holds
  | clearAll =>
    apply (clearAll_announces anchors).emits
    intro key was now _ holds
    cases holds
  -- Another set of anchors resets the dock, and the same set says nothing.
  | replace entries =>
    simp only [emitted, step, replace]
    split
    · rename_i same
      refine .nothing (find_of_sameAnchors same) ?_
      obtain ⟨length, _⟩ := Bool.and_eq_true_iff.mp same
      have sized := of_decide_eq_true length
      rw [Bool.eq_iff_iff, List.isEmpty_iff_length_eq_zero, List.isEmpty_iff_length_eq_zero, sized]
    · exact .reset

end Emissions

end AnchorManager

namespace AnchorsDock

open AnchorManager (AnchorStep)

variable {θ : Type*}

section Items

/-- `PopulateAnchorCellForEntry`: all but the note cell. -/
def populateAnchorCell (source : SourcePaths) (theme : Option θ) (value : AnchorValue)
    (item : AnchorItem θ) : AnchorItem θ :=
  let displayPath := displayPathForLocator source item.key.locator
  { item with
    swatch := theme.map (·, value.colorIndex)
    labelPath := displayPath
    tooltip := ⟨value.colorIndex, item.key.lineId, displayPath, value.note⟩ }

/-- A new item, with its note cell. -/
def newItem (source : SourcePaths) (theme : Option θ) (entry : AnchorKey × AnchorValue) :
    AnchorItem θ :=
  populateAnchorCell source theme entry.2 ⟨entry.1, none, [], entry.2.note,
    ⟨entry.2.colorIndex, entry.1.lineId, [], []⟩⟩

/-- `setText` of the note cell. -/
def setNoteCell (note : Bytes) (item : AnchorItem θ) : AnchorItem θ := { item with note }

/-- The note and the tooltips of an item, from its anchor. -/
def refreshNote (source : SourcePaths) (value : AnchorValue) (item : AnchorItem θ) : AnchorItem θ :=
  { item with
    note := value.note
    tooltip := ⟨value.colorIndex, item.key.lineId, displayPathForLocator source item.key.locator,
      value.note⟩ }

end Items

section Refreshing

/-- A dock without a session. It starts hidden. -/
def initial (theme : Option θ) : AnchorsDock θ := ⟨none, ⟨[], []⟩, theme, true, false, [], false⟩

/-- `IsVisibleForRefresh`. -/
def isVisibleForRefresh (dock : AnchorsDock θ) : Bool := !dock.isHidden && dock.perceivedVisible

/-- `RefreshAlways`: the tree from scratch. -/
def refreshAlways (dock : AnchorsDock θ) : AnchorsDock θ :=
  match dock.anchors with
  | none => { dock with items := [] }
  | some anchors =>
    { dock with
      items := anchors.savedEntries.map (newItem dock.source dock.theme)
      clearAllEnabled := !anchors.entries.isEmpty }

/-- `Refresh`. -/
def refresh (dock : AnchorsDock θ) : AnchorsDock θ :=
  if dock.isVisibleForRefresh then dock.refreshAlways else dock

end Refreshing

section Handlers

/-- `OnAnchorChanged`. -/
def onAnchorChanged (dock : AnchorsDock θ) (key : AnchorKey) : AnchorsDock θ :=
  match dock.isVisibleForRefresh, dock.anchors with
  | true, some anchors =>
    let dock := { dock with clearAllEnabled := !anchors.entries.isEmpty }
    match anchors.find key with
    | none => { dock with items := SortedView.remove AnchorItem.key key dock.items }
    | some value =>
      -- Anchors of streams are not listed.
      if key.locator = [] then dock
      else if dock.items.any (·.key = key) then
        { dock with
          items := SortedView.change AnchorItem.key key
            (populateAnchorCell dock.source dock.theme value) dock.items }
      else
        { dock with
          items := SortedView.insert AnchorItem.key AnchorManager.rank
            (newItem dock.source dock.theme (key, value)) dock.items }
  | _, _ => dock

/-- `OnAnchorNoteChanged`. -/
def onAnchorNoteChanged (dock : AnchorsDock θ) (key : AnchorKey) : AnchorsDock θ :=
  match dock.isVisibleForRefresh, dock.anchors with
  | true, some anchors =>
    if dock.items.any (·.key = key) then
      match anchors.find key with
      | none => dock.refreshAlways
      | some value =>
        { dock with
          items := SortedView.change AnchorItem.key key (refreshNote dock.source value) dock.items }
    else dock.refreshAlways
  | _, _ => dock

/-- The slot of a signal. -/
def deliver (dock : AnchorsDock θ) : DockSignal → AnchorsDock θ
  | .anchorChanged key => dock.onAnchorChanged key
  | .anchorNoteChanged key => dock.onAnchorNoteChanged key
  | .anchorsReset => dock.refresh

/-- A call to the manager of the bound session, from anywhere. -/
def callManager (dock : AnchorsDock θ) (step : AnchorStep) : AnchorsDock θ :=
  match dock.anchors with
  | none => dock
  | some anchors =>
    let called := { dock with anchors := some (anchors.step step) }
    match anchors.emitted step with
    | none => called
    | some signal => called.deliver signal

/-- The user commits a text to the note cell of a row, and `OnItemChanged` hands the
sanitised text on. -/
def editNote (dock : AnchorsDock θ) (row : Nat) (text : Bytes) : AnchorsDock θ :=
  match dock.items[row]?, dock.anchors with
  | some item, some _ =>
    let sanitised := AnchorManager.sanitiseNote text
    let edited := { dock with items := dock.items.modify row (setNoteCell sanitised) }
    edited.callManager (.setAnchorNote item.key sanitised)
  | _, _ => { dock with items := dock.items.modify row (setNoteCell text) }

end Handlers

/-- What reaches the dock. -/
inductive Event (θ : Type*) where
  | call (step : AnchorStep)
  | editNote (row : Nat) (text : Bytes)
  | visibilityChanged (visible : Bool)
  | hide
  | show
  | themeChanged (theme : θ)
  /-- The model resets, with the source as it is then. -/
  | modelReset (source : SourcePaths)
  /-- The source is set without a signal. -/
  | setSource (source : SourcePaths)
  | bind (anchors : AnchorManager) (source : SourcePaths) (theme : Option θ)
  | unbind

/-- One event. -/
def step (dock : AnchorsDock θ) : Event θ → AnchorsDock θ
  | .call step => dock.callManager step
  | .editNote row text => dock.editNote row text
  | .visibilityChanged visible =>
    let seen := { dock with perceivedVisible := visible }
    if visible then seen.refreshAlways else seen
  -- A hidden dock is not refreshed until it is shown again.
  | .hide => { dock with isHidden := true, perceivedVisible := false }
  | .show => refreshAlways { dock with isHidden := false, perceivedVisible := true }
  | .themeChanged theme => refresh { dock with theme := some theme }
  | .modelReset source => refresh { dock with source }
  | .setSource source => { dock with source }
  | .bind anchors source theme =>
    refresh { dock with anchors := some anchors, source, theme := theme.or dock.theme, items := [] }
  | .unbind => { dock with anchors := none, source := ⟨[], []⟩, items := [] }

section Lists

open AnchorManager (rank rank_injective)

/-- An item, with the paths that it displays or without them. -/
def seen (paths : Bool) (item : AnchorItem θ) : AnchorItem θ :=
  if paths then item
  else { item with labelPath := [], tooltip := { item.tooltip with displayPath := [] } }

/-- Reading an item keeps its key. -/
@[simp] theorem seen_key (paths : Bool) (item : AnchorItem θ) :
    (seen paths item).key = item.key := by
  unfold seen
  split <;> rfl

/-- A new item is listed under its key. -/
@[simp] theorem newItem_key (source : SourcePaths) (theme : Option θ)
    (entry : AnchorKey × AnchorValue) :
    (newItem source theme entry).key = entry.1 := rfl

variable {paths : Bool} {source : SourcePaths} {theme : Option θ} {anchors after : AnchorManager}
    {items : List (AnchorItem θ)}

/-- The items of the tree are those of the anchors of files, in the order in which these
are saved. -/
structure Lists (paths : Bool) (source : SourcePaths) (theme : Option θ) (anchors : AnchorManager)
    (items : List (AnchorItem θ)) :
    Prop where
  ordered : SortedView.Ascending AnchorItem.key rank items
  rows : ∀ item ∈ items, ∃ value, anchors.find item.key = some value ∧ item.key.locator ≠ [] ∧
    seen paths item = seen paths (newItem source theme (item.key, value))
  all : ∀ key value, anchors.find key = some value → key.locator ≠ [] →
    ∃ item ∈ items, item.key = key

/-- A rebuilt tree lists the anchors. -/
theorem lists_rebuilt (paths : Bool) (source : SourcePaths) (theme : Option θ)
    (anchors : AnchorManager) :
    Lists paths source theme anchors (anchors.savedEntries.map (newItem source theme)) where
  ordered := List.pairwise_map.mpr (AnchorManager.savedEntries_lt anchors)
  rows := by
    -- The rows are the saved entries, one item each.
    intro item listed
    obtain ⟨⟨key, value⟩, saved, rfl⟩ := List.mem_map.mp listed
    obtain ⟨found, file⟩ := AnchorManager.mem_savedEntries.mp saved
    exact ⟨value, found, file, rfl⟩
  all := by
    intro key value found file
    exact ⟨_, List.mem_map_of_mem (AnchorManager.mem_savedEntries.mpr ⟨found, file⟩), rfl⟩

/-- A tree that lists the anchors is the rebuilt one. -/
theorem Lists.eq_rebuilt (lists : Lists paths source theme anchors items) :
    items.map (seen paths) = (anchors.savedEntries.map (newItem source theme)).map
      (seen paths) := by
  have rebuilt := lists_rebuilt paths source theme anchors
  have byKey {shown : List (AnchorItem θ)}
    (ordered : SortedView.Ascending AnchorItem.key rank shown) :
      SortedView.Ascending AnchorItem.key rank (shown.map (seen paths)) := by
    refine List.pairwise_map.mpr (ordered.imp fun less => ?_)
    simpa using less
  refine (byKey lists.ordered).ext (byKey rebuilt.ordered) fun shown => ?_
  constructor
  · intro listed
    obtain ⟨item, member, rfl⟩ := List.mem_map.mp listed
    obtain ⟨value, found, file, same⟩ := lists.rows item member
    rw [same]
    exact List.mem_map_of_mem
      (List.mem_map_of_mem (AnchorManager.mem_savedEntries.mpr ⟨found, file⟩))
  · intro listed
    obtain ⟨item, member, rfl⟩ := List.mem_map.mp listed
    obtain ⟨⟨key, value⟩, saved, rfl⟩ := List.mem_map.mp member
    obtain ⟨found, file⟩ := AnchorManager.mem_savedEntries.mp saved
    -- The item of the key shows its value.
    obtain ⟨item, present, rfl⟩ := lists.all key value found file
    obtain ⟨held, finds, _, same⟩ := lists.rows item present
    obtain rfl := Option.some.inj (found.symm.trans finds)
    exact List.mem_map.mpr ⟨item, present, same⟩

/-- A listed key is one of the anchors. -/
theorem Lists.any_iff (lists : Lists paths source theme anchors items) {key : AnchorKey}
    (file : key.locator ≠ []) :
    items.any (·.key = key) = true ↔ (anchors.find key).isSome = true := by
  rw [List.any_eq_true, Option.isSome_iff_exists]
  -- Items and saved anchors stand for each other by their keys.
  constructor
  · intro given
    obtain ⟨item, listed, same⟩ := given
    obtain ⟨value, found, _, _⟩ := lists.rows item listed
    exact ⟨value, of_decide_eq_true same ▸ found⟩
  · intro given
    obtain ⟨value, found⟩ := given
    obtain ⟨item, listed, same⟩ := lists.all key value found file
    exact ⟨item, listed, decide_eq_true same⟩

/-- The tree depends on what the keys of files find. -/
theorem Lists.congr (lists : Lists paths source theme anchors items)
    (same : ∀ key : AnchorKey, key.locator ≠ [] → after.find key = anchors.find key) :
    Lists paths source theme after items where
  ordered := lists.ordered
  rows := by
    intro item listed
    obtain ⟨value, found, file, shows⟩ := lists.rows item listed
    exact ⟨value, (same item.key file).trans found, file, shows⟩
  all := fun key value found file => lists.all key value ((same key file).symm.trans found) file

/-- The item of a removed anchor is removed. -/
theorem Lists.remove (lists : Lists paths source theme anchors items) {key : AnchorKey}
    (others : ∀ other, other ≠ key → after.find other = anchors.find other)
    (gone : after.find key = none) :
    Lists paths source theme after (SortedView.remove AnchorItem.key key items) where
  ordered := lists.ordered.remove
  -- An item that stays belongs to another key, whose anchor has not changed.
  rows := by
    intro item listed
    obtain ⟨member, differs⟩ := lists.ordered.mem_remove.mp listed
    obtain ⟨value, found, file, shows⟩ := lists.rows item member
    exact ⟨value, (others item.key differs).trans found, file, shows⟩
  -- An anchor that is still there has another key, so its item has not been taken out.
  all := by
    intro other value found file
    have differs : other ≠ key := by
      rintro rfl
      rw [gone] at found
      cases found
    obtain ⟨item, member, same⟩ :=
      lists.all other value ((others other differs).symm.trans found) file
    exact ⟨item, lists.ordered.mem_remove.mpr ⟨member, same ▸ differs⟩, same⟩

/-- The item of a new anchor is inserted in its place. -/
theorem Lists.insert (lists : Lists paths source theme anchors items) {key : AnchorKey}
    {value : AnchorValue}
    (others : ∀ other, other ≠ key → after.find other = anchors.find other)
    (file : key.locator ≠ [])
    (fresh : anchors.find key = none) (added : after.find key = some value) :
    Lists paths source theme after
      (SortedView.insert AnchorItem.key rank (newItem source theme (key, value)) items) := by
  -- The key is new to the anchors, so no item has it.
  have differ : ∀ item ∈ items, item.key ≠ key := by
    rintro item listed rfl
    obtain ⟨value, found, _⟩ := lists.rows item listed
    rw [fresh] at found
    cases found
  refine ⟨lists.ordered.insert rank_injective differ, fun item listed => ?_,
    fun other held found elsewhere => ?_⟩
  · rcases SortedView.mem_insert.mp listed with rfl | member
    · exact ⟨value, added, file, rfl⟩
    · obtain ⟨was, found, inside, shows⟩ := lists.rows item member
      exact ⟨was, (others item.key (differ item member)).trans found, inside, shows⟩
  · -- The new key is found at the new item, every other one where it was.
    by_cases same : other = key
    · exact ⟨newItem source theme (key, value), SortedView.mem_insert.mpr (.inl rfl), same.symm⟩
    · obtain ⟨item, member, named⟩ :=
        lists.all other held ((others other same).symm.trans found) elsewhere
      exact ⟨item, SortedView.mem_insert.mpr (.inr member), named⟩

/-- The item of a changed anchor is changed, if that makes it what a new item of the anchor is. -/
theorem Lists.change (lists : Lists paths source theme anchors items) {key : AnchorKey}
    {was value : AnchorValue}
    (others : ∀ other, other ≠ key → after.find other = anchors.find other)
    (held : anchors.find key = some was)
    (holds : after.find key = some value) (file : key.locator ≠ [])
    {edit : AnchorItem θ → AnchorItem θ}
    (keeps : ∀ item, (edit item).key = item.key)
    (makes : ∀ item : AnchorItem θ, item.key = key →
    seen paths item = seen paths (newItem source theme (key, was)) →
      seen paths (edit item) = seen paths (newItem source theme (key, value))) :
    Lists paths source theme after (SortedView.change AnchorItem.key key edit items) := by
  refine ⟨lists.ordered.change keeps, fun item listed => ?_, fun other found shown elsewhere => ?_⟩
  · -- The row is one that has been edited, or another one.
    rcases lists.ordered.mem_change.mp listed with ⟨member, differs⟩ | ⟨old, member, named, rfl⟩
    · obtain ⟨own, found, inside, shows⟩ := lists.rows item member
      exact ⟨own, (others item.key differs).trans found, inside, shows⟩
    · obtain ⟨own, found, _, shows⟩ := lists.rows old member
      subst named
      obtain rfl := Option.some.inj (held.symm.trans found)
      rw [keeps old]
      exact ⟨value, holds, file, makes old rfl shows⟩
  · -- The edited row still stands for the key.
    by_cases same : other = key
    · subst same
      obtain ⟨item, member, named⟩ := lists.all other was held file
      exact ⟨edit item, lists.ordered.mem_change.mpr (.inr ⟨item, member, named, rfl⟩),
        (keeps item).trans named⟩
    · obtain ⟨item, member, named⟩ :=
        lists.all other found ((others other same).symm.trans shown) elsewhere
      exact ⟨item, lists.ordered.mem_change.mpr (.inl ⟨member, named ▸ same⟩), named⟩

end Lists

section Steps

variable {paths : Bool} {dock : AnchorsDock θ} {before after : AnchorManager}

/-- While it can be seen, the dock lists the anchors of its session, and its button tells whether
there are any. -/
structure InStep (paths : Bool) (dock : AnchorsDock θ) : Prop where
  unbound : dock.anchors = none → dock.items = []
  bound : ∀ anchors, dock.anchors = some anchors → dock.isVisibleForRefresh = true →
    Lists paths dock.source dock.theme anchors dock.items ∧
      dock.clearAllEnabled = !anchors.entries.isEmpty

/-- A rebuild brings the dock in step. -/
theorem refreshAlways_inStep (paths : Bool) (dock : AnchorsDock θ) :
    dock.refreshAlways.InStep paths := by
  obtain ⟨held, source, theme, isHidden, perceivedVisible, items, clearAllEnabled⟩ := dock
  -- An unbound dock is empty, and a bound one shows what it has just read.
  cases held with
  | none => exact ⟨fun _ => rfl, fun anchors bound => (by cases bound)⟩
  | some anchors =>
    refine ⟨fun none_ => (by cases none_), fun other bound _ => ?_⟩
    obtain rfl := Option.some.inj bound
    exact ⟨lists_rebuilt paths source theme anchors, rfl⟩

/-- A dock that cannot be seen is in step, if it shows nothing without a session. -/
theorem inStep_of_invisible (invisible : dock.isVisibleForRefresh = false)
    (unbound : dock.anchors = none → dock.items = []) :
    dock.InStep paths := by
  refine ⟨unbound, fun anchors _ visible => ?_⟩
  rw [invisible] at visible
  cases visible

/-- A refresh brings the dock in step. -/
theorem refresh_inStep (paths : Bool) (dock : AnchorsDock θ)
    (unbound : dock.anchors = none → dock.items = []) :
    dock.refresh.InStep paths := by
  unfold refresh
  split
  · exact refreshAlways_inStep paths dock
  · rename_i invisible
    exact inStep_of_invisible (Bool.eq_false_iff.mpr invisible) unbound

/-- An item that shows an old colour is what a new item shows, once its cell is populated. -/
theorem populateAnchorCell_makes (source : SourcePaths) (theme : Option θ) {was value : AnchorValue}
    (note : value.note = was.note)
    (item : AnchorItem θ) (shows : seen paths item = seen paths
    (newItem source theme (item.key, was))) :
    populateAnchorCell source theme value item = newItem source theme (item.key, value) := by
  have cell : item.note = was.note := by
    have notes := congrArg AnchorItem.note shows
    unfold seen at notes
    cases paths <;> exact notes
  -- Only the note cell is taken over.
  obtain ⟨key, swatch, labelPath, text, tooltip⟩ := item
  simp only [populateAnchorCell, newItem, AnchorItem.mk.injEq, and_true, true_and]
  exact cell.trans note.symm

/-- An item that shows an old note is what a new item shows, once its note is refreshed. -/
theorem refreshNote_makes (source : SourcePaths) (theme : Option θ) {was value : AnchorValue}
    (color : value.colorIndex = was.colorIndex)
    (item : AnchorItem θ) (shows : seen paths item = seen paths
    (newItem source theme (item.key, was))) :
    seen paths (refreshNote source value item) = seen paths
      (newItem source theme (item.key, value)) := by
  -- With the path the label is written too, without it only the key and the swatch are.
  obtain ⟨key, swatch, labelPath, text, tooltip⟩ := item
  cases paths with
  | true =>
    simp only [seen, if_true, newItem, populateAnchorCell, AnchorItem.mk.injEq] at shows
    obtain ⟨_, swatches, label, _⟩ := shows
    simp [seen, refreshNote, newItem, populateAnchorCell, swatches, label, color]
  | false =>
    simp only [seen, newItem, populateAnchorCell, AnchorItem.mk.injEq, Bool.false_eq_true,
      if_false] at shows
    obtain ⟨_, swatches, _⟩ := shows
    simp [seen, refreshNote, newItem, populateAnchorCell, swatches, color]

/-- The slot of a changed anchor brings the dock in step. -/
theorem onAnchorChanged_inStep (lists : Lists paths dock.source dock.theme before dock.items)
    (bound : dock.anchors = some after)
    (visible : dock.isVisibleForRefresh = true) {key : AnchorKey}
    (others : ∀ other, other ≠ key → after.find other = before.find other)
    (note : ∀ was now, before.find key = some was → after.find key = some now →
    now.note = was.note) :
    (dock.onAnchorChanged key).InStep paths := by
  obtain ⟨held, source, theme, isHidden, perceivedVisible, items, clearAllEnabled⟩ := dock
  obtain rfl : held = some after := bound
  have inStep {items : List (AnchorItem θ)} (shows : Lists paths source theme after items) :
      (⟨some after, source, theme, isHidden, perceivedVisible, items, !after.entries.isEmpty⟩ :
        AnchorsDock θ).InStep paths := by
    refine ⟨fun none_ => (by cases none_), fun anchors held _ => ?_⟩
    obtain rfl := Option.some.inj held
    exact ⟨shows, rfl⟩
  unfold onAnchorChanged
  rw [visible]
  dsimp only at lists ⊢
  split
  · rename_i found
    exact inStep (lists.remove others found)
  · rename_i value found
    split
    · -- The anchor of a stream is not listed, before and after.
      rename_i stream
      apply inStep
      apply lists.congr
      intro other file
      exact others other fun same => file (same ▸ stream)
    · rename_i file
      split
      · rename_i shown
        obtain ⟨was, held⟩ := Option.isSome_iff_exists.mp ((lists.any_iff file).mp shown)
        apply inStep
        apply lists.change others held found file
        · exact fun item => rfl
        · intro item named shows
          subst named
          rw [populateAnchorCell_makes source theme (note was value held found) item shows]
      · rename_i missing
        apply inStep
        apply lists.insert others file _ found
        rw [lists.any_iff file] at missing
        simpa using missing

/-- The slot of a changed note brings the dock in step. -/
theorem onAnchorNoteChanged_inStep (lists : Lists paths dock.source dock.theme before dock.items)
    (bound : dock.anchors = some after)
    (visible : dock.isVisibleForRefresh = true)
    (button : dock.clearAllEnabled = !after.entries.isEmpty) {key : AnchorKey}
    (others : ∀ other, other ≠ key → after.find other = before.find other) {was now : AnchorValue}
    (held : before.find key = some was) (holds : after.find key = some now)
    (color : now.colorIndex = was.colorIndex) :
    (dock.onAnchorNoteChanged key).InStep paths := by
  unfold onAnchorNoteChanged
  rw [visible, bound]
  dsimp only
  split
  · rename_i shown
    rw [holds]
    dsimp only
    -- The key is listed, so its anchor is one of a file.
    obtain ⟨item, listed, named⟩ := List.any_eq_true.mp shown
    obtain ⟨_, _, file, _⟩ := lists.rows item listed
    rw [of_decide_eq_true named] at file
    refine ⟨fun none_ => (by cases none_), fun anchors found _ => ?_⟩
    obtain rfl := Option.some.inj found
    refine ⟨lists.change others held holds file (fun item => rfl) ?_, button⟩
    intro item same shows
    subst same
    exact refreshNote_makes dock.source dock.theme color item shows
  · exact refreshAlways_inStep paths dock

/-- An anchor that is there makes the anchors not empty. -/
theorem isEmpty_of_find {anchors : AnchorManager} {key : AnchorKey} {value : AnchorValue}
    (found : anchors.find key = some value) :
    anchors.entries.isEmpty = false := by
  rw [List.isEmpty_eq_false_iff]
  exact List.ne_nil_of_mem (KeyedList.mem_entries_iff.mpr found)

/-- A dock that cannot be seen takes no signal. -/
theorem deliver_of_invisible (invisible : dock.isVisibleForRefresh = false) (signal : DockSignal) :
    dock.deliver signal = dock := by
  cases signal with
  | anchorChanged key => rw [deliver, onAnchorChanged, invisible]
  | anchorNoteChanged key => rw [deliver, onAnchorNoteChanged, invisible]
  | anchorsReset => rw [deliver, refresh, invisible]; rfl

/-- A call to the manager of a dock that cannot be seen changes the anchors alone. -/
theorem callManager_of_invisible (invisible : dock.isVisibleForRefresh = false)
    {anchors : AnchorManager}
    (bound : dock.anchors = some anchors) (step : AnchorStep) :
    dock.callManager step = { dock with anchors := some (anchors.step step) } := by
  -- The dock only takes the new manager; the signal finds it hidden.
  have unseen : isVisibleForRefresh { dock with anchors := some (anchors.step step) } = false :=
    invisible
  unfold callManager
  rw [bound]
  dsimp only
  split
  · rfl
  · exact deliver_of_invisible unseen _

/-- A call to the manager keeps the dock in step. -/
theorem callManager_inStep (inStep : dock.InStep paths) (call : AnchorStep) :
    (dock.callManager call).InStep paths := by
  cases bound : dock.anchors with
  | none =>
    unfold callManager
    rw [bound]
    exact inStep
  | some anchors =>
    cases visible : dock.isVisibleForRefresh with
    | false =>
      rw [callManager_of_invisible visible bound]
      -- Without a signal nothing has changed for any key.
      exact inStep_of_invisible visible fun none_ => (by cases none_)
    | true =>
      -- The dock hears the signal while it lists the anchors as they were.
      obtain ⟨lists, button⟩ := inStep.bound anchors bound visible
      have seen : isVisibleForRefresh { dock with anchors := some (anchors.step call) } = true :=
        visible
      have emits := AnchorManager.emitted_emits anchors call
      unfold callManager
      rw [bound]
      dsimp only
      cases signal : anchors.emitted call with
      | none =>
        rw [signal] at emits
        cases emits with
        | nothing same empty =>
          refine ⟨fun none_ => (by cases none_), fun other held _ => ?_⟩
          obtain rfl := Option.some.inj held
          exact ⟨lists.congr fun key _ => same key, button.trans (congrArg (! ·) empty.symm)⟩
      | some signal_ =>
        rw [signal] at emits
        cases emits with
        -- The dock reads the colours of the one key anew.
        | changed key others note =>
          exact @onAnchorChanged_inStep _ paths { dock with anchors := some (anchors.step call) } _
            _ lists rfl seen key others note
        -- Only the note of this item changes, and the button stays as it is.
        | noted key others was now held holds color =>
          refine @onAnchorNoteChanged_inStep _ paths
            { dock with anchors := some (anchors.step call) } _ _ lists rfl seen ?_
            key others was now held holds color
          rw [isEmpty_of_find holds]
          exact button.trans (congrArg (! ·) (isEmpty_of_find held))
        | reset => exact refresh_inStep paths _ fun none_ => (by cases none_)

/-- The slot of a changed note writes the cell, whatever it held. -/
theorem onAnchorNoteChanged_setNoteCell (bound : dock.anchors = some after)
    (visible : dock.isVisibleForRefresh = true)
    (key : AnchorKey) (note : Bytes) :
    onAnchorNoteChanged { dock with
      items := SortedView.change AnchorItem.key key (setNoteCell note) dock.items } key =
      dock.onAnchorNoteChanged key := by
  have seen : isVisibleForRefresh
    { dock with items := SortedView.change AnchorItem.key key (setNoteCell note) dock.items } =
      true := visible
  -- Writing the note into its cell leaves the keys of the items, so the same item is found.
  have keeps : ∀ item : AnchorItem θ, (setNoteCell note item).key = item.key := fun _ => rfl
  unfold onAnchorNoteChanged
  rw [seen, visible]
  simp only [bound, SortedView.any_change keeps, SortedView.change_change keeps]
  split
  · split
    · simp only [refreshAlways, bound]
    · rfl
  · simp only [refreshAlways, bound]

/-- A note that the user commits keeps the dock in step. -/
theorem editNote_inStep (inStep : dock.InStep paths) (row : Nat) (text : Bytes) :
    (dock.editNote row text).InStep paths := by
  unfold editNote
  split
  · rename_i item anchors listed bound
    dsimp only
    cases visible : dock.isVisibleForRefresh with
    | false =>
      have unseen : isVisibleForRefresh
        { dock with items := dock.items.modify row (setNoteCell (AnchorManager.sanitiseNote text)) } = false :=
          visible
      rw [callManager_of_invisible unseen bound]
      exact inStep_of_invisible visible fun none_ => (by cases none_)
    | true =>
      obtain ⟨lists, button⟩ := inStep.bound anchors bound visible
      obtain ⟨was, held, file, _⟩ := lists.rows item (List.mem_of_getElem? listed)
      have sanitised := AnchorManager.sanitiseNote_of_tidy
        (AnchorManager.tidyNote_sanitiseNote text)
      rw [lists.ordered.modify_eq_change listed]
      unfold callManager
      simp only [bound, AnchorManager.emitted, AnchorManager.step]
      rcases AnchorManager.setAnchorNote_cases anchors item.key (AnchorManager.sanitiseNote text)
        with
        ⟨same, kept⟩ | ⟨value, found, put⟩
      · -- The text is sanitised to the note that the anchor has.
        rw [same]
        refine ⟨fun none_ => (by cases none_), fun other shown _ => ?_⟩
        obtain rfl := Option.some.inj shown
        refine ⟨lists.change (fun _ _ => rfl) held held file (fun _ => rfl) ?_, button⟩
        intro old named shows
        have cell := congrArg AnchorItem.note shows
        have own : old.note = was.note := by
          unfold seen at cell
          cases paths <;> exact cell
        obtain ⟨key, swatch, labelPath, note, tooltip⟩ := old
        obtain rfl : note = AnchorManager.sanitiseNote text :=
          own.trans ((kept was held).trans sanitised)
        exact shows
      · -- The anchor takes the note, and its slot writes the cell again.
        obtain rfl := Option.some.inj (held.symm.trans found)
        rw [put]
        simp only [if_true, deliver]
        have holds := KeyedList.find_put anchors item.key item.key
          { was with note := AnchorManager.sanitiseNote (AnchorManager.sanitiseNote text) }
        rw [if_pos rfl] at holds
        generalize put_ : anchors.put item.key
          { was with note := AnchorManager.sanitiseNote (AnchorManager.sanitiseNote text) } =
          after at holds ⊢
        refine @onAnchorNoteChanged_setNoteCell _ { dock with anchors := some after } after
          rfl visible item.key
          (AnchorManager.sanitiseNote text) ▸ ?_
        refine @onAnchorNoteChanged_inStep _ paths { dock with anchors := some after } anchors after
          lists rfl visible ?_
          item.key ?_ _ _ held holds rfl
        · rw [isEmpty_of_find holds]
          exact button.trans (congrArg (! ·) (isEmpty_of_find held))
        · intro other differs
          rw [← put_, KeyedList.find_put, if_neg differs]
  · rename_i unmatched
    refine ⟨fun none_ => ?_, fun anchors bound visible => ?_⟩
    · show dock.items.modify row (setNoteCell text) = []
      rw [inStep.unbound none_]
      exact List.modify_nil _ _
    · -- There is no such row, so nothing is written.
      have outside : dock.items[row]? = none := by
        cases listed : dock.items[row]? with
        | none => rfl
        | some item => exact absurd bound (unmatched item anchors listed)
      have same : dock.items.modify row (setNoteCell text) = dock.items :=
        List.modify_eq_self (List.getElem?_eq_none_iff.mp outside)
      simp only [same]
      exact inStep.bound anchors bound visible

/-- Each event keeps the dock in step; with the paths, if it does not set the source behind the
dock's back. -/
theorem step_inStep (inStep : dock.InStep paths) {event : Event θ}
    (announced : paths = true → ∀ source, event ≠ .setSource source) :
    (dock.step event).InStep paths := by
  cases event with
  | call step => exact callManager_inStep inStep step
  | editNote row text => exact editNote_inStep inStep row text
  -- Becoming visible rebuilds the dock; covered, it need not follow.
  | visibilityChanged visible =>
    simp only [step]
    split
    · exact refreshAlways_inStep paths _
    · rename_i covered
      apply inStep_of_invisible
      · simp [isVisibleForRefresh, covered]
      · exact inStep.unbound
  | hide => exact inStep_of_invisible rfl inStep.unbound
  | «show» => exact refreshAlways_inStep paths _
  | themeChanged theme => exact refresh_inStep paths _ inStep.unbound
  | modelReset source => exact refresh_inStep paths _ inStep.unbound
  -- The source changes without a signal, so the paths are the one part that may be behind.
  | setSource source =>
    cases paths with
    | true => exact absurd rfl (announced rfl source)
    | false =>
      refine ⟨inStep.unbound, fun anchors bound visible => ?_⟩
      obtain ⟨lists, button⟩ := inStep.bound anchors bound visible
      refine ⟨⟨lists.ordered, fun item listed => ?_, lists.all⟩, button⟩
      obtain ⟨value, found, file, shows⟩ := lists.rows item listed
      exact ⟨value, found, file, shows⟩
  | bind anchors source theme => exact refresh_inStep paths _ fun none_ => (by cases none_)
  | unbind => exact ⟨fun _ => rfl, fun anchors bound => (by cases bound)⟩

end Steps

section Runs

/-- A run of events. -/
def run (dock : AnchorsDock θ) (events : List (Event θ)) : AnchorsDock θ := events.foldl step dock

/-- The dock shows what a rebuild would make of it. -/
structure ShowsRebuilt (paths : Bool) (dock : AnchorsDock θ) : Prop where
  items : dock.items.map (seen paths) = dock.refreshAlways.items.map (seen paths)
  clearAll : dock.clearAllEnabled = dock.refreshAlways.clearAllEnabled

variable {paths : Bool} {dock : AnchorsDock θ}

/-- A dock in step that can be seen shows what a rebuild would show. -/
theorem InStep.showsRebuilt (inStep : dock.InStep paths)
    (visible : dock.isVisibleForRefresh = true) : dock.ShowsRebuilt paths := by
  unfold isVisibleForRefresh at visible
  cases bound : dock.anchors with
  -- An unbound dock shows nothing, and a rebuild would show nothing.
  | none =>
    have rebuilt : dock.refreshAlways = { dock with items := [] } := by
      unfold refreshAlways
      rw [bound]
    constructor
    · rw [rebuilt, inStep.unbound bound]
    · rw [rebuilt]
  | some anchors =>
    -- A rebuild lists the saved anchors, and the dock lists the same ones.
    obtain ⟨lists, button⟩ := inStep.bound anchors bound visible
    have rebuilt : dock.refreshAlways =
        { dock with
          items := anchors.savedEntries.map (newItem dock.source dock.theme)
          clearAllEnabled := !anchors.entries.isEmpty } := by
      unfold refreshAlways
      rw [bound]
    constructor
    · rw [rebuilt]
      exact lists.eq_rebuilt
    · rw [rebuilt]
      exact button

/-- Runs keep a dock in step; with the paths, if none sets the source behind its back. -/
theorem run_inStep (inStep : dock.InStep paths) {events : List (Event θ)}
    (announced : paths = true → ∀ source, Event.setSource source ∉ events) :
    (dock.run events).InStep paths := by
  unfold run
  -- Each event keeps the dock in step, given that its source was announced.
  apply foldl_invariant (InStep paths)
  · intro next event listed kept
    apply step_inStep kept
    rintro shown source rfl
    exact announced shown source listed
  · exact inStep

/-- After every run of calls to the managers, edits, changes of visibility, theme and session, a
dock that can be seen shows the anchors of the files of its session as a rebuild would: the
order, colours, notes and tooltips always, and the paths too unless some source was set without
a signal. -/
theorem run_showsRebuilt (theme : Option θ) (events : List (Event θ))
    (visible : ((initial theme).run events).isVisibleForRefresh = true) :
    ((initial theme).run events).ShowsRebuilt false ∧
      ((∀ source, Event.setSource source ∉ events) → ((initial theme).run events).items =
        ((initial theme).run events).refreshAlways.items) := by
  -- An initial dock shows nothing, and is in step with nothing.
  have start (paths : Bool) : (initial theme).InStep paths := inStep_of_invisible rfl fun _ => rfl
  constructor
  · exact (run_inStep (start false) fun shown => (by cases shown)).showsRebuilt visible
  · intro announced
    have shows := ((run_inStep (start true) fun _ => announced).showsRebuilt visible).items
    have whole (items : List (AnchorItem θ)) : items.map (seen true) = items := List.map_id items
    rwa [whole, whole] at shows

/-- A session is opened, a row behind another one is anchored, the first one takes a note,
and one goes. -/
def dockEvents : List (Event Unit) :=
  [.show, .bind .empty ⟨[bytes "/a.log"], [bytes "/A.log"]⟩ (some ()),
    .call (.setAnchor ⟨bytes "/a.log", 7⟩ 1),
    .call (.setAnchor ⟨bytes "/a.log", 3⟩ 2), .editNote 0 (bytes " x\n"),
    .call (.removeAnchor ⟨bytes "/a.log", 7⟩)]

/-- The remaining row is listed with its note. -/
theorem dockEvents_shown :
    ((initial none).run dockEvents).items.map
      (fun item => (item.key.lineId, item.note)) = [(3, bytes "x")] ∧
      ((initial none).run dockEvents).ShowsRebuilt false :=
  ⟨by decide, (run_showsRebuilt none dockEvents rfl).1⟩

end Runs

end AnchorsDock

end Loglib
