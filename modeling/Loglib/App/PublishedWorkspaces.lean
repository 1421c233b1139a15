import Loglib.App.WorkspacePublishing

/-! After a publish that stops anywhere, the manifest is the old or the new one, with all its
snapshots. -/

namespace Loglib

/-- The sessions that tabs name. -/
def sessionsOf (tabs : List WorkspaceTab) : List Utf16 := (tabs.map (·.sessionUuid)).filter (· ≠ [])

/-- The sessions that the tabs of windows name. -/
def sessionUuids (windows : List WorkspaceWindow) : List Utf16 :=
  windows.flatMap fun window => sessionsOf window.tabs

/-- A tab that may have lost its session. -/
structure WorkspaceTab.Published (tab shown : WorkspaceTab) : Prop where
  session : shown.sessionUuid = tab.sessionUuid ∨ shown.sessionUuid = []
  others : { shown with sessionUuid := tab.sessionUuid } = tab

/-- A window whose tabs may have lost their sessions. -/
structure WorkspaceWindow.Published (window shown : WorkspaceWindow) : Prop where
  tabs : List.Forall₂ WorkspaceTab.Published window.tabs shown.tabs
  others : { shown with tabs := window.tabs } = window

/-- Every session the manifest names has its snapshot in the generation of the manifest. -/
def WorkspaceDisk.Complete (disk : WorkspaceDisk) : Prop :=
  ∀ uuid ∈ sessionUuids disk.Read.windows, (disk.Read.generation, uuid) ∈ disk.snapshots

namespace DiskChange

/-- The change leaves the manifest alone, and the snapshots of a generation. -/
def Spares (generation : UInt64) : DiskChange → Prop
  | .removeSnapshot other _ => other ≠ generation
  | .copySnapshot other _ => other ≠ generation
  | .commitManifest _ => False

/-- The change is one of the snapshots of a generation. -/
def Within (generation : UInt64) : DiskChange → Prop
  | .removeSnapshot other _ => other = generation
  | .copySnapshot other _ => other = generation
  | .commitManifest _ => False

/-- A change within a generation spares the others. -/
theorem Within.spares {generation other : UInt64} (differs : generation ≠ other)
    {change : DiskChange}
    (within : change.Within generation) : change.Spares other := by
  cases change with
  | removeSnapshot held uuid => exact within.symm ▸ differs
  | copySnapshot held uuid => exact within.symm ▸ differs
  | commitManifest workspace => exact within

end DiskChange

/-- Changes that spare a generation leave the manifest and the snapshots of the generation
as they are. -/
theorem foldl_apply_spares {generation : UInt64} {changes : List DiskChange}
    (spares : ∀ change ∈ changes, change.Spares generation) (disk : WorkspaceDisk) :
    (changes.foldl .apply disk).manifest = disk.manifest ∧
      ∀ uuid, (generation, uuid) ∈ (changes.foldl .apply disk).snapshots ↔
        (generation, uuid) ∈ disk.snapshots := by
  induction changes generalizing disk with
  | nil => exact ⟨rfl, fun _ => Iff.rfl⟩
  | cons change rest ih =>
    obtain ⟨manifest, snapshots⟩ :=
      ih (fun other member => spares other (List.mem_cons_of_mem _ member)) (disk.apply change)
    -- A change that spares the generation touches neither its manifest nor its snapshots.
    have one := spares change (List.mem_cons_self ..)
    refine ⟨manifest.trans ?_, fun uuid => (snapshots uuid).trans ?_⟩
    · cases change <;> first | rfl | exact absurd one id
    · cases change with
      | removeSnapshot other held =>
        have differs : (generation, uuid) ≠ (other, held) :=
          fun same => one (Prod.mk.inj same).1.symm
        simp [WorkspaceDisk.apply, List.mem_filter, differs]
      | copySnapshot other held =>
        have differs : (generation, uuid) ≠ (other, held) :=
          fun same => one (Prod.mk.inj same).1.symm
        simp [WorkspaceDisk.apply, differs]
      | commitManifest workspace => exact absurd one id

namespace SnapshotCopy

variable {faults : PublishFaults} {generation previous : UInt64} {start : WorkspaceDisk}

/-- The disk is the one the changes make, and they are all within the generation. -/
structure Sound (start : WorkspaceDisk) (generation : UInt64) (copy : SnapshotCopy) : Prop where
  replays : copy.disk = copy.changes.foldl .apply start
  within : ∀ change ∈ copy.changes, change.Within generation

/-- The snapshots of some sessions are there. -/
def Has (generation : UInt64) (copy : SnapshotCopy) (kept : List Utf16) : Prop :=
  ∀ uuid ∈ kept, (generation, uuid) ∈ copy.disk.snapshots

/-- A change within the generation keeps the copy sound. -/
theorem Sound.change {copy : SnapshotCopy} (sound : copy.Sound start generation) {made : DiskChange}
    (within : made.Within generation) : (copy.change made).Sound start generation := by
  refine ⟨?_, fun other member => ?_⟩
  · simp [SnapshotCopy.change, List.foldl_append, ← sound.replays]
  · rcases List.mem_append.mp member with old | new
    · exact sound.within other old
    · exact List.mem_singleton.mp new ▸ within

/-- The number of attempts does not matter for soundness. -/
theorem Sound.attempts {copy : SnapshotCopy} (sound : copy.Sound start generation)
    (attempts : Nat) :
    SnapshotCopy.Sound start generation { copy with attempts } := ⟨sound.replays, sound.within⟩

/-- What a copy of one session does: it has the snapshot if it succeeds, and it touches no
other one. -/
structure Copies (faults : PublishFaults) (generation : UInt64) (uuid : Utf16) (copy : SnapshotCopy)
    (result : Bool × SnapshotCopy) : Prop where
  copied : result.1 = true → (generation, uuid) ∈ result.2.disk.snapshots
  others : ∀ other, other ≠ uuid →
    ((generation, other) ∈ result.2.disk.snapshots ↔ (generation, other) ∈ copy.disk.snapshots)
  /-- An old snapshot is only lost where a copy fails. -/
  stays : (∀ attempt, faults.copies attempt = true) →
    (generation, uuid) ∈ copy.disk.snapshots → (generation, uuid) ∈ result.2.disk.snapshots

/-- A copy that fails. -/
theorem Copies.failed {uuid : Utf16} {copy result : SnapshotCopy}
    (others : ∀ other, other ≠ uuid →
      ((generation, other) ∈ result.disk.snapshots ↔ (generation, other) ∈ copy.disk.snapshots))
    (stays : (∀ attempt, faults.copies attempt = true) →
      (generation, uuid) ∈ copy.disk.snapshots → (generation, uuid) ∈ result.disk.snapshots) :
    Copies faults generation uuid copy (false, result) :=
  ⟨fun found => absurd found Bool.false_ne_true, others, stays⟩

/-- One copy. -/
theorem copySnapshotFile_spec {copy : SnapshotCopy} (sound : copy.Sound start generation)
    (exists_ : Bool)
    (uuid : Utf16) : (copy.CopySnapshotFile faults exists_ generation uuid).2.Sound start
    generation ∧
      Copies faults generation uuid copy
        (copy.CopySnapshotFile faults exists_ generation uuid) := by
  have dropped : (copy.dropOld faults generation uuid).Sound start generation := by
    rw [dropOld]
    split
    · exact sound.change rfl
    · exact sound
  have kept : ∀ other, other ≠ uuid →
    ((generation, other) ∈ (copy.dropOld faults generation uuid).disk.snapshots ↔
      (generation, other) ∈ copy.disk.snapshots) := by
    intro other differs
    rw [dropOld]
    split
    · simp [change, WorkspaceDisk.apply, differs]
    · rfl
  cases exists_ with
  | false => exact ⟨sound, .failed (fun _ _ => Iff.rfl) fun _ held => held⟩
  | true =>
    simp only [CopySnapshotFile, if_true]
    split
    · have made := @Sound.change generation start _ dropped (.copySnapshot generation uuid) rfl
      refine ⟨made.attempts _, ⟨fun _ => ?_, fun other differs => ?_, fun _ _ => ?_⟩⟩
      · simp [change, WorkspaceDisk.apply]
      · simpa [change, WorkspaceDisk.apply, differs] using kept other differs
      · simp [change, WorkspaceDisk.apply]
    · rename_i fails
      refine ⟨dropped.attempts _, .failed kept fun calm held => ?_⟩
      -- The copy does not fail, so it is the old file that is still in its place.
      by_contra gone
      exact fails ⟨gone, calm _⟩

/-- No session is named twice, or no copy fails. -/
def Safe (faults : PublishFaults) (sessions : List Utf16) : Prop :=
  sessions.Nodup ∨ ∀ attempt, faults.copies attempt = true

/-- The sessions are safe behind those that were copied. -/
theorem Safe.later {kept before after rest : List Utf16}
    (safe : Safe faults (kept ++ (before ++ rest)))
    (named : after.Sublist before) : Safe faults ((kept ++ after) ++ rest) := by
  refine safe.imp_left fun apart => ?_
  rw [List.append_assoc]
  exact apart.sublist ((List.Sublist.refl kept).append (named.append (List.Sublist.refl rest)))

/-- Fewer sessions are safe as well. -/
theorem Safe.front {kept before rest : List Utf16} (safe : Safe faults (kept ++ (before ++ rest))) :
    Safe faults (kept ++ before) := by
  refine safe.imp_left fun apart => ?_
  exact apart.sublist ((List.Sublist.refl kept).append (List.sublist_append_left before rest))

variable [QUuid]

/-- One tab. -/
theorem copyTab_spec {copy : SnapshotCopy} (sound : copy.Sound start generation) (uuid : Utf16) :
    (copy.copyTab faults generation previous uuid).2.Sound start generation ∧
      Copies faults generation uuid copy (copy.copyTab faults generation previous uuid) := by
  simp only [copyTab]
  -- A session of the recents is copied from there first.
  split
  · have first := @copySnapshotFile_spec faults generation start copy sound
      (decide (uuid ∈ copy.disk.recents)) uuid
    split
    · rename_i found
      -- Without it, the old generation is tried.
      exact ⟨first.1, ⟨fun _ => first.2.copied found, first.2.others, first.2.stays⟩⟩
    · split
      · have second := @copySnapshotFile_spec faults generation start _ first.1
          (decide ((previous, uuid) ∈
          (copy.CopySnapshotFile faults (uuid ∈ copy.disk.recents) generation
            uuid).2.disk.snapshots)) uuid
        refine ⟨second.1, ⟨second.2.copied, fun other differs => ?_, fun calm held => ?_⟩⟩
        · exact (second.2.others other differs).trans (first.2.others other differs)
        · -- Nothing is copied while nothing is to be carried over, or without a session.
          exact second.2.stays calm (first.2.stays calm held)
      · exact ⟨first.1, .failed first.2.others first.2.stays⟩
  · exact ⟨sound, .failed (fun _ _ => Iff.rfl) fun _ held => held⟩

/-- What copying the snapshots of sessions leaves: those that are still named are there. -/
structure Copied (start : WorkspaceDisk) (generation : UInt64) (kept before after : List Utf16)
    (copy : SnapshotCopy) : Prop where
  sound : copy.Sound start generation
  has : copy.Has generation (kept ++ after)
  named : after.Sublist before
  uuids : ∀ uuid ∈ after, LooksLikeUuid uuid = true

/-- Copies one after the other. -/
theorem Copied.append {kept before after more later : List Utf16} {middle last : SnapshotCopy}
    (first : Copied start generation kept before after middle)
    (second : Copied start generation (kept ++ after) more later last) :
    Copied start generation kept (before ++ more) (after ++ later) last where
  sound := second.sound
  has := by simpa using second.has
  named := first.named.append second.named
  uuids uuid member := (List.mem_append.mp member).elim (first.uuids uuid) (second.uuids uuid)

/-- The session of one tab. -/
theorem copied_copyTab {copy : SnapshotCopy} {kept : List Utf16} {tab : WorkspaceTab}
    (sound : copy.Sound start generation) (has : copy.Has generation kept)
    (safe : Safe faults (kept ++ sessionsOf [tab])) :
    Copied start generation kept (sessionsOf [tab])
      (sessionsOf [if (copy.copyTab faults generation previous tab.sessionUuid).1 then tab
        else { tab with sessionUuid := [] }])
      (copy.copyTab faults generation previous tab.sessionUuid).2 := by
  obtain ⟨after, copies⟩ :=
    @copyTab_spec faults generation previous start _ copy sound tab.sessionUuid
  by_cases uuid : tab.sessionUuid ≠ [] ∧ LooksLikeUuid tab.sessionUuid = true
  swap
  · -- The tab has no uuid: nothing is copied, and it names no session afterwards.
    have same : copy.copyTab faults generation previous tab.sessionUuid = (false, copy) :=
      if_neg uuid
    rw [same]
    exact ⟨sound, by simpa [sessionsOf] using has, by simp [sessionsOf], by simp [sessionsOf]⟩
  have named : sessionsOf [tab] = [tab.sessionUuid] := by simp [sessionsOf, uuid.1]
  rw [named] at safe ⊢
  have others : (copy.copyTab faults generation previous tab.sessionUuid).2.Has
      generation kept := by
    intro other member
    by_cases same : other = tab.sessionUuid
    · subst same
      rcases safe with apart | calm
      · exact absurd member fun twice =>
          (List.nodup_append.mp apart).2.2 _ twice _ (List.mem_singleton.mpr rfl) rfl
      · exact copies.stays calm (has _ member)
    · exact (copies.others other same).mpr (has other member)
  by_cases copied : (copy.copyTab faults generation previous tab.sessionUuid).1 = true
  · rw [if_pos copied, named]
    refine ⟨after, fun other member => ?_, List.Sublist.refl _, fun other member =>
      List.mem_singleton.mp member ▸ uuid.2⟩
    rcases List.mem_append.mp member with old | new
    · exact others other old
    · exact List.mem_singleton.mp new ▸ copies.copied copied
  · rw [if_neg copied]
    exact ⟨after, by simpa [sessionsOf] using others, by simp [sessionsOf], by simp [sessionsOf]⟩

/-- The sessions of the tabs of a window. -/
theorem copied_copyTabs {tabs : List WorkspaceTab} {copy : SnapshotCopy} {kept : List Utf16}
    (sound : copy.Sound start generation) (has : copy.Has generation kept)
    (safe : Safe faults (kept ++ sessionsOf tabs)) :
    Copied start generation kept (sessionsOf tabs)
      (sessionsOf (copyTabs faults generation previous copy tabs).1)
        (copyTabs faults generation previous copy tabs).2 ∧
      List.Forall₂ WorkspaceTab.Published tabs
        (copyTabs faults generation previous copy tabs).1 := by
  induction tabs generalizing copy kept with
  | nil =>
    exact ⟨⟨sound, by simpa [copyTabs, sessionsOf] using has, .refl _, by simp [copyTabs, sessionsOf]⟩, .nil⟩
  -- The sessions of the first tab come before those of the others.
  | cons tab rest ih =>
    have split : ∀ (tab : WorkspaceTab) (rest : List WorkspaceTab),
        sessionsOf (tab :: rest) = sessionsOf [tab] ++ sessionsOf rest := fun tab rest => by
      rw [sessionsOf, sessionsOf, sessionsOf, ← List.filter_append]
      rfl
    rw [split] at safe
    have first := @copied_copyTab faults generation previous start _ copy kept tab sound
      has safe.front
    obtain ⟨second, alike⟩ := ih first.sound first.has (safe.later first.named)
    have whole := first.append second
    rw [← split tab rest, ← split] at whole
    -- A tab whose copy failed is shown without its session.
    refine ⟨whole, .cons ?_ alike⟩
    split
    · exact ⟨.inl rfl, rfl⟩
    · exact ⟨.inr rfl, rfl⟩

/-- The sessions of the windows. -/
theorem copied_copyWindows {windows : List WorkspaceWindow} {copy : SnapshotCopy}
    {kept : List Utf16}
    (sound : copy.Sound start generation) (has : copy.Has generation kept)
    (safe : Safe faults (kept ++ sessionUuids windows)) :
    Copied start generation kept (sessionUuids windows)
        (sessionUuids (copyWindows faults generation previous copy windows).1)
        (copyWindows faults generation previous copy windows).2 ∧
      List.Forall₂ WorkspaceWindow.Published windows
        (copyWindows faults generation previous copy windows).1 := by
  -- Window by window; what has been named so far stays there.
  induction windows generalizing copy kept with
  | nil =>
    exact ⟨⟨sound, by simpa [copyWindows, sessionUuids] using has, .refl _,
      by simp [copyWindows, sessionUuids]⟩, .nil⟩
  | cons window rest ih =>
    rw [sessionUuids, List.flatMap_cons] at safe
    obtain ⟨first, tabs⟩ := @copied_copyTabs faults generation previous start _ window.tabs copy
      kept sound has safe.front
    obtain ⟨second, alike⟩ := ih first.sound first.has (safe.later first.named)
    exact ⟨first.append second, .cons ⟨tabs, rfl⟩ alike⟩

end SnapshotCopy

/-- Membership in the sessions of windows. -/
theorem mem_sessionUuids {windows : List WorkspaceWindow} {uuid : Utf16} :
    uuid ∈ sessionUuids windows ↔
    uuid ≠ [] ∧ ∃ window ∈ windows, ∃ tab ∈ window.tabs, tab.sessionUuid = uuid := by
  simp only [sessionUuids, sessionsOf, List.mem_flatMap, List.mem_filter, List.mem_map,
    decide_eq_true_eq]
  -- A session is named by a tab of a window, and is not empty.
  constructor
  · rintro ⟨window, member, ⟨tab, there, same⟩, filled⟩
    exact ⟨filled, window, member, tab, there, same⟩
  · rintro ⟨filled, window, member, tab, there, same⟩
    exact ⟨window, member, ⟨tab, there, same⟩, filled⟩

/-- Sanitizing adds no session where the bound cuts none. -/
theorem mem_sessionUuids_of_sanitize {workspace : Workspace} {uuid : Utf16}
    (whole : ∀ uuid ∈ sessionUuids workspace.windows, uuid.length ≤ MAX_UUID_LENGTH)
    (member : uuid ∈ sessionUuids (Sanitize workspace).windows) :
    uuid ∈ sessionUuids workspace.windows := by
  obtain ⟨filled, window, inWindows, tab, inTabs, same⟩ := mem_sessionUuids.mp member
  obtain ⟨oldWindow, oldMember, rfl⟩ := List.mem_map.mp inWindows
  obtain ⟨oldTab, oldThere, rfl⟩ := List.mem_map.mp inTabs
  -- The uuids are not longer than the clamp, so it leaves them whole.
  have clamped : ClampString oldTab.sessionUuid MAX_UUID_LENGTH = uuid := same
  have old : oldTab.sessionUuid ≠ [] := by
    intro empty
    rw [empty] at clamped
    exact filled clamped.symm
  have held : oldTab.sessionUuid ∈ sessionUuids workspace.windows :=
    mem_sessionUuids.mpr ⟨old, oldWindow, List.mem_of_mem_take oldMember, oldTab,
      List.mem_of_mem_take oldThere, rfl⟩
  rw [clampString_of_le (whole _ held)] at clamped
  exact clamped ▸ held

/-- A manifest that publishes a workspace in the next generation. -/
structure NewManifest (disk : WorkspaceDisk) (workspace manifest : Workspace) : Prop where
  generation : manifest.generation = disk.Read.generation + 1
  bounded : manifest.Bounded
  windows : ∃ shown, List.Forall₂ WorkspaceWindow.Published workspace.windows shown ∧
    manifest.windows = (shown.take MAX_WINDOWS).map sanitizeWindow

/-- The text names a file of a directory, and a manifest holds it whole. -/
def IsFileName (uuid : Utf16) : Prop := uuid.length ≤ MAX_UUID_LENGTH ∧ 0x2F ∉ uuid ∧ 0x5C ∉ uuid
deriving Decidable

section Publishing

variable [QUuid]

/-- What is accepted as a uuid of a session is a file name. -/
def NamesFiles (sessions : List Utf16) : Prop := ∀ uuid ∈ sessions, LooksLikeUuid uuid = true →
    IsFileName uuid

/-- The changes of a publish: snapshots of the new generation, then the manifest that names them
only, then removals from other generations. -/
theorem publish_cases {faults : PublishFaults} (disk : WorkspaceDisk) {workspace : Workspace}
    (safe : SnapshotCopy.Safe faults (sessionUuids workspace.windows))
    (names : NamesFiles (sessionUuids workspace.windows)) :
    (∀ change ∈ (Publish faults disk workspace).2, change.Within (disk.Read.generation + 1)) ∨
    ∃ manifest before after,
      (Publish faults disk workspace).2 = before ++ .commitManifest manifest :: after ∧
      (∀ change ∈ before, change.Within (disk.Read.generation + 1)) ∧
      (∀ change ∈ after, change.Spares (disk.Read.generation + 1)) ∧
        NewManifest disk workspace manifest ∧
      ∀ uuid ∈ sessionUuids manifest.windows,
        (disk.Read.generation + 1, uuid) ∈ (before.foldl .apply disk).snapshots := by
  simp only [Publish]
  split
  swap
  · exact .inl fun change member => nomatch member
  simp only [WriteGenerationSnapshots]
  by_cases refused : disk.Read.generation + 1 = 0 ∨ faults.directory = false
  · rw [if_pos refused]
    exact .inl fun change member => nomatch member
  rw [if_neg refused]
  obtain ⟨copied, published⟩ := @SnapshotCopy.copied_copyWindows faults (disk.Read.generation + 1)
    disk.Read.generation disk _ workspace.windows ⟨disk, 0, []⟩ [] ⟨rfl, fun _ member =>
      nomatch member⟩
    (fun _ member => nomatch member) (by simpa using safe)
  generalize SnapshotCopy.copyWindows faults (disk.Read.generation + 1) disk.Read.generation ⟨disk,
    0, []⟩
    workspace.windows = result at copied published
  simp only
  split
  · rename_i written
    refine .inr ⟨Sanitize ⟨SCHEMA_VERSION, disk.Read.generation + 1, result.1, workspace.mruOrder⟩,
      result.2.changes, _, List.append_assoc .., copied.sound.within, ?_,
      ⟨rfl, sanitize_bounded _, result.1, published, rfl⟩, fun uuid member => ?_⟩
    · -- The collection leaves out the generation that was just published.
      intro change member
      obtain ⟨entry, inEntries, rfl⟩ := List.mem_map.mp member
      have listed := (List.mem_zipIdx (List.mem_of_mem_filter inEntries)).2.2
      have other := List.of_mem_filter (listed ▸ List.getElem_mem _)
      simpa [DiskChange.Spares] using other
    · rw [← copied.sound.replays]
      -- The sessions that are left have been accepted, so the clamp of the manifest cuts none.
      have whole : ∀ uuid ∈ sessionUuids result.1, uuid.length ≤ MAX_UUID_LENGTH := fun uuid left =>
        (names uuid (copied.named.subset left) (copied.uuids uuid left)).1
      have named := mem_sessionUuids_of_sanitize whole member
      exact copied.has uuid (List.mem_append_right _ named)
  · exact .inl copied.sound.within

/-- Wherever a publish stops, the manifest is the old one with its snapshots or the new one with its
snapshots. -/
theorem publish_stops {faults : PublishFaults} (disk : WorkspaceDisk) {workspace : Workspace}
    (safe : SnapshotCopy.Safe faults (sessionUuids workspace.windows))
    (names : NamesFiles (sessionUuids workspace.windows)) (stop : Nat) :
    let next := ((Publish faults disk workspace).2.take stop).foldl WorkspaceDisk.apply disk
    (next.manifest = disk.manifest ∧
        ∀ uuid, (disk.Read.generation, uuid) ∈ next.snapshots ↔
          (disk.Read.generation, uuid) ∈ disk.snapshots) ∨
      ∃ manifest, next.manifest = some manifest ∧ NewManifest disk workspace manifest ∧
        ∀ uuid ∈ sessionUuids manifest.windows, (manifest.generation, uuid) ∈ next.snapshots := by
  intro next
  have differs : disk.Read.generation + 1 ≠ disk.Read.generation := by
    intro same
    exact absurd (add_eq_left.mp same) (by decide)
  have early : ∀ {changes : List DiskChange},
    (∀ change ∈ changes, change.Within (disk.Read.generation + 1)) →
      ∀ change ∈ changes.take stop, change.Spares disk.Read.generation :=
        fun within change member =>
    (within change (List.mem_of_mem_take member)).spares differs
  rcases publish_cases disk safe names with
    within | ⟨manifest, before, after, changes, within, spares, new, named⟩
  · exact .inl (foldl_apply_spares (early within) disk)
  by_cases short : stop ≤ before.length
  · -- The manifest has not been replaced yet.
    refine .inl ?_
    have cut : (Publish faults disk workspace).2.take stop = before.take stop := by
      rw [changes, List.take_append_of_le_length short]
    simp only [next, cut]
    exact foldl_apply_spares (early within) disk
  · refine .inr ⟨manifest, ?_⟩
    obtain ⟨more, rfl⟩ : ∃ more, stop = before.length + (more + 1) :=
      ⟨stop - before.length - 1, by omega⟩
    have cut : (Publish faults disk workspace).2.take (before.length + (more + 1)) =
        before ++ .commitManifest manifest :: after.take more := by
      rw [changes, List.take_append, List.take_of_length_le (by omega)]
      simp
    have late : ∀ change ∈ after.take more, change.Spares (disk.Read.generation + 1) :=
      fun change member =>
      spares change (List.mem_of_mem_take member)
    have rest := foldl_apply_spares late
      ((before.foldl WorkspaceDisk.apply disk).apply (.commitManifest manifest))
    simp only [next, cut, List.foldl_append, List.foldl_cons]
    refine ⟨rest.1, new, fun uuid member => ?_⟩
    rw [new.generation]
    exact (rest.2 uuid).mpr (named uuid member)

end Publishing

end Loglib
