import Loglib.Basic.Bytes
import Loglib.Basic.KeyedList

/-! The rows that the user has anchored: a colour and a note by file and line id. -/

namespace Loglib

/-- `ANCHOR_PALETTE_SIZE`. -/
def anchorPaletteSize : Nat := 8

/-- The palette has a slot. -/
instance : NeZero anchorPaletteSize := ⟨by decide⟩

/-- A slot of the anchor palette. -/
abbrev AnchorColor := Fin anchorPaletteSize

/-- `AnchorManager::Key`. The locator is empty for in-memory streams. -/
structure AnchorKey where
  locator : Bytes
  lineId : Nat
deriving DecidableEq, Repr

/-- `AnchorManager::Value`. -/
structure AnchorValue where
  colorIndex : AnchorColor
  note : Bytes

/-- The anchors by key. -/
abbrev AnchorManager := KeyedList AnchorKey AnchorValue

/-- What the manager tells its listeners: one key, or everything. -/
inductive AnchorSignal where
  | anchorChanged (key : AnchorKey)
  | anchorsReset

namespace AnchorManager

/-- A colour index past the palette is the last slot. -/
def clampColor (colorIndex : UInt8) : AnchorColor :=
  ⟨min colorIndex.toNat (anchorPaletteSize - 1), by rw [anchorPaletteSize]; omega⟩

/-- `ColorFor`. -/
def colorFor (anchors : AnchorManager) (key : AnchorKey) : Option AnchorColor :=
  (anchors.find key).map (·.colorIndex)

/-- One key takes the colour and keeps its note. The flag says that something has changed. -/
def recolor (color : AnchorColor) (anchors : AnchorManager) (key : AnchorKey) :
    AnchorManager × Bool :=
  match anchors.find key with
  | none => (anchors.put key ⟨color, []⟩, true)
  | some value =>
    if value.colorIndex = color then (anchors, false)
      else (anchors.put key { value with colorIndex := color }, true)

/-- `SetAnchor`. -/
def setAnchor (anchors : AnchorManager) (key : AnchorKey) (colorIndex : UInt8) :
    AnchorManager × Option AnchorSignal :=
  let (changed, flag) := recolor (clampColor colorIndex) anchors key
  (changed, if flag then some (.anchorChanged key) else none)

/-- What a bulk call has changed so far: how many keys, and the last of them. -/
structure BulkChange where
  anchors : AnchorManager
  changeCount : Nat
  lastChangedKey : Option AnchorKey

/-- One change names its key, and more of them name none. -/
def BulkChange.signal (change : BulkChange) : Option AnchorSignal :=
  match change.changeCount with
  | 0 => none
  | 1 => change.lastChangedKey.map .anchorChanged
  | _ => some .anchorsReset

/-- `SetAnchors`. -/
def setAnchors (anchors : AnchorManager) (keys : List AnchorKey) (colorIndex : UInt8) :
    AnchorManager × Option AnchorSignal :=
  let change := keys.foldl
    (fun (change : BulkChange) key =>
      let (anchors, flag) := recolor (clampColor colorIndex) change.anchors key
      if flag then ⟨anchors, change.changeCount + 1, some key⟩ else change)
    ⟨anchors, 0, none⟩
  (change.anchors, change.signal)

/-- `RemoveAnchor`. -/
def removeAnchor (anchors : AnchorManager) (key : AnchorKey) :
    AnchorManager × Option AnchorSignal :=
  if (anchors.find key).isSome then (anchors.erase key, some (.anchorChanged key))
    else (anchors, none)

/-- `RemoveAnchors`. -/
def removeAnchors (anchors : AnchorManager) (keys : List AnchorKey) :
    AnchorManager × Option AnchorSignal :=
  let change := keys.foldl
    (fun (change : BulkChange) key =>
      if (change.anchors.find key).isSome then ⟨change.anchors.erase key, change.changeCount + 1,
        some key⟩ else change)
    ⟨anchors, 0, none⟩
  (change.anchors, change.signal)

/-- `ClearAll`. -/
def clearAll (anchors : AnchorManager) : AnchorManager × Option AnchorSignal :=
  (.empty, if anchors.entries.isEmpty then none else some .anchorsReset)

/-- Entries are listed by locator, then by line id. -/
def entryLe (first second : AnchorKey × AnchorValue) : Bool :=
  if first.1.locator ≠ second.1.locator then decide
    (byteKey first.1.locator ≤ byteKey second.1.locator)
  else decide (first.1.lineId ≤ second.1.lineId)

/-- `EntriesIncludingRuntimeOnly`. -/
def entriesIncludingRuntimeOnly (anchors : AnchorManager) : List (AnchorKey × AnchorValue) :=
  anchors.entries.insertionSort (entryLe · ·)

/-- `Entries`: those with a file, as they are saved. -/
def savedEntries (anchors : AnchorManager) : List (AnchorKey × AnchorValue) :=
  (anchors.entries.filter fun entry => entry.1.locator ≠ []).insertionSort (entryLe · ·)

/-- A listed entry is what its key finds. -/
theorem mem_entriesIncludingRuntimeOnly {anchors : AnchorManager} {key : AnchorKey}
    {value : AnchorValue} :
    (key, value) ∈ anchors.entriesIncludingRuntimeOnly ↔ anchors.find key = some value := by
  rw [entriesIncludingRuntimeOnly, List.mem_insertionSort, KeyedList.mem_entries_iff]

/-- `RemoveAnchors` takes away the anchors of its keys, and no other. -/
theorem find_removeAnchors (anchors : AnchorManager) (keys : List AnchorKey) (other : AnchorKey) :
    (anchors.removeAnchors keys).1.find other = if other ∈ keys then none
      else anchors.find other := by
  unfold removeAnchors
  -- The induction is on the keys that are left, and the count does not matter to it.
  suffices all : ∀ change : BulkChange, (keys.foldl (fun (change : BulkChange) key =>
      if (change.anchors.find key).isSome then ⟨change.anchors.erase key, change.changeCount + 1,
        some key⟩ else change)
        change).anchors.find other = if other ∈ keys then none
          else change.anchors.find other from all ⟨anchors, 0, none⟩
  induction keys with
  | nil => simp
  | cons key rest ih =>
    intro change
    rw [List.foldl_cons, ih]
    have one : (if (change.anchors.find key).isSome then
        (⟨change.anchors.erase key, change.changeCount + 1, some key⟩ : BulkChange)
          else change).anchors.find other =
          if other = key then none else change.anchors.find other := by
      by_cases held : (change.anchors.find key).isSome
      · rw [if_pos held, KeyedList.find_erase]
      · rw [if_neg held]
        -- A key without an anchor is skipped.
        by_cases same : other = key
        · subst same
          simpa using held
        · rw [if_neg same]
    rw [one]
    by_cases later : other ∈ rest
    · simp [later]
    · simp [later]

/-- A colour change touches one key. -/
theorem find_recolor_of_ne (color : AnchorColor) (anchors : AnchorManager) {key other : AnchorKey}
    (differs : other ≠ key) :
    (recolor color anchors key).1.find other = anchors.find other := by
  unfold recolor
  split
  · rw [KeyedList.find_put, if_neg differs]
  · split
    · rfl
    · rw [KeyedList.find_put, if_neg differs]

/-- A call that reports no change has changed nothing. -/
theorem recolor_unchanged {color : AnchorColor} {anchors : AnchorManager} {key : AnchorKey}
    (same : (recolor color anchors key).2 = false) : (recolor color anchors key).1 = anchors := by
  unfold recolor at same ⊢
  -- A colour that is there already is the only case without a change.
  cases found : anchors.find key with
  | none => simp [found] at same
  | some value =>
    rw [found] at same
    dsimp only at same ⊢
    split at same
    · rename_i equal
      rw [if_pos equal]
    · contradiction

/-- What the listeners of a call can rely on: no signal means no change, and one key means
no other key. -/
inductive Announces (before : AnchorManager) : AnchorManager × Option AnchorSignal → Prop where
  | nothing : Announces before (before, none)
  | one (after : AnchorManager) (key : AnchorKey) (others : ∀ other, other ≠ key →
      after.find other = before.find other) :
      Announces before (after, some (.anchorChanged key))
  | all (after : AnchorManager) : Announces before (after, some .anchorsReset)

/-- What a bulk call has changed lies under the last key, unless there are more. -/
inductive BulkChange.Counts (before : AnchorManager) : BulkChange → Prop where
  | none : Counts before ⟨before, 0, .none⟩
  | one (after : AnchorManager) (key : AnchorKey) (others : ∀ other, other ≠ key →
      after.find other = before.find other) :
      Counts before ⟨after, 1, some key⟩
  | more (after : AnchorManager) (count : Nat) (key : AnchorKey) : Counts before ⟨after,
      count + 2, some key⟩

/-- One more key of a bulk call. -/
theorem BulkChange.Counts.add {before : AnchorManager} {change : BulkChange}
    (counts : change.Counts before)
    {after : AnchorManager} {key : AnchorKey}
    (others : ∀ other, other ≠ key → after.find other = change.anchors.find other) :
    (⟨after, change.changeCount + 1, some key⟩ : BulkChange).Counts before := by
  cases counts with
  | none => exact .one after key others
  | one first firstKey _ => exact .more after 0 key
  | more first count firstKey => exact .more after (count + 1) key

/-- The signal of a bulk call says what was changed. -/
theorem BulkChange.Counts.announces {before : AnchorManager} {change : BulkChange}
    (counts : change.Counts before) :
    Announces before (change.anchors, change.signal) := by
  cases counts with
  | none => exact .nothing
  | one after key others => exact .one after key others
  | more after count key => exact .all after

/-- `SetAnchor` announces its change. -/
theorem setAnchor_announces (anchors : AnchorManager) (key : AnchorKey) (colorIndex : UInt8) :
    Announces anchors (anchors.setAnchor key colorIndex) := by
  unfold setAnchor
  dsimp only
  -- The signal follows the flag, and only the one key is touched.
  cases flag : (recolor (clampColor colorIndex) anchors key).2 with
  | false =>
    rw [recolor_unchanged flag]
    exact .nothing
  | true => exact .one _ key fun other differs => find_recolor_of_ne _ anchors differs

/-- `SetAnchors` announces its changes. -/
theorem setAnchors_announces (anchors : AnchorManager) (keys : List AnchorKey)
    (colorIndex : UInt8) :
    Announces anchors (anchors.setAnchors keys colorIndex) := by
  unfold setAnchors
  apply BulkChange.Counts.announces
  -- The induction is on the keys that are left, with the count so far as the invariant.
  suffices all : ∀ change : BulkChange, change.Counts anchors →
    (keys.foldl (fun (change : BulkChange) key =>
      let (anchors, flag) := recolor (clampColor colorIndex) change.anchors key
      if flag then ⟨anchors, change.changeCount + 1, some key⟩ else change) change).Counts
        anchors from all _ .none
  induction keys with
  | nil => exact fun change counts => counts
  | cons key rest ih =>
    intro change counts
    rw [List.foldl_cons]
    apply ih
    dsimp only
    split
    · exact counts.add fun other differs => find_recolor_of_ne _ change.anchors differs
    · exact counts

/-- `RemoveAnchor` announces its change. -/
theorem removeAnchor_announces (anchors : AnchorManager) (key : AnchorKey) :
    Announces anchors (anchors.removeAnchor key) := by
  unfold removeAnchor
  split
  · apply Announces.one
    intro other differs
    rw [KeyedList.find_erase, if_neg differs]
  · exact .nothing

/-- `RemoveAnchors` announces its changes. -/
theorem removeAnchors_announces (anchors : AnchorManager) (keys : List AnchorKey) :
    Announces anchors (anchors.removeAnchors keys) := by
  unfold removeAnchors
  apply BulkChange.Counts.announces
  -- The fold counts from any change on, so the induction is over all of them.
  suffices all : ∀ change : BulkChange, change.Counts anchors →
    (keys.foldl (fun (change : BulkChange) key =>
      if (change.anchors.find key).isSome then ⟨change.anchors.erase key, change.changeCount + 1,
        some key⟩ else change)
        change).Counts anchors from all _ .none
  induction keys with
  | nil => exact fun change counts => counts
  | cons key rest ih =>
    intro change counts
    rw [List.foldl_cons]
    apply ih
    split
    · apply counts.add
      intro other differs
      rw [KeyedList.find_erase, if_neg differs]
    · exact counts

/-- `ClearAll` announces its change. -/
theorem clearAll_announces (anchors : AnchorManager) : Announces anchors anchors.clearAll := by
  unfold clearAll
  split
  · -- Clearing an empty store announces nothing.
    rename_i empty
    have bare : (KeyedList.empty : AnchorManager) = anchors := by
      obtain ⟨entries, distinct⟩ := anchors
      have none_ : entries = [] := List.isEmpty_iff.mp empty
      subst none_
      rfl
    rw [bare]
    exact .nothing
  · exact .all _

end AnchorManager

end Loglib
