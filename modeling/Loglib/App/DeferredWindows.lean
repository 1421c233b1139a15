import Loglib.App.PublishedWorkspaces
import Loglib.Basic.Runs

/-! Deferred windows come back: what a launch holds back is in the next published workspace. -/

namespace Loglib

section Merging

/-- The windows of one uuid after a merge: the captured ones, or else the first deferred one. -/
theorem filter_foldl_mergeWindow {uuid : Utf16} (filled : uuid ≠ [])
    (deferred merged : List WorkspaceWindow) :
    (deferred.foldl mergeWindow merged).filter (·.windowUuid = uuid) =
      if uuid ∈ merged.map (·.windowUuid) then merged.filter (·.windowUuid = uuid)
      else (deferred.find? (·.windowUuid = uuid)).toList := by
  induction deferred generalizing merged with
  | nil =>
    split
    · rfl
    · rename_i absent
      refine List.filter_eq_nil_iff.mpr fun window member => ?_
      have differs : window.windowUuid ≠ uuid :=
        fun same => absent (List.mem_map.mpr ⟨window, member, same⟩)
      simpa using differs
  | cons window rest ih =>
    rw [List.foldl_cons, ih]
    by_cases skipped : window.windowUuid = [] ∨ window.windowUuid ∈ merged.map (·.windowUuid)
    · rw [mergeWindow, if_pos skipped]
      by_cases same : window.windowUuid = uuid
      · -- A window of this uuid is only passed over where one has been captured.
        have there : uuid ∈ merged.map (·.windowUuid) := by
          rw [← same] at filled ⊢
          exact skipped.resolve_left filled
        rw [if_pos there, if_pos there]
      · rw [List.find?_cons_of_neg (by simpa using same)]
    · rw [mergeWindow, if_neg skipped]
      by_cases same : window.windowUuid = uuid
      · have absent : uuid ∉ merged.map (·.windowUuid) := same ▸ (not_or.mp skipped).2
        have none_ : merged.filter (·.windowUuid = uuid) = [] := by
          refine List.filter_eq_nil_iff.mpr fun held member => ?_
          have differs : held.windowUuid ≠ uuid :=
            fun same => absent (List.mem_map.mpr ⟨held, member, same⟩)
          simpa using differs
        rw [if_neg absent, if_pos (by simp [same]), List.filter_append, none_,
          List.find?_cons_of_pos (by simpa using same)]
        simp [same]
      · rw [List.find?_cons_of_neg (by simpa using same), List.filter_append]
        simp [same, Ne.symm same]

/-- A merged window has been captured or deferred. -/
theorem mem_of_mem_foldl_mergeWindow {deferred merged : List WorkspaceWindow}
    {window : WorkspaceWindow}
    (member : window ∈ deferred.foldl mergeWindow merged) :
    window ∈ merged ∨ window ∈ deferred := by
  -- A window is taken over only if its identifier is not there yet.
  induction deferred generalizing merged with
  | nil => exact .inl member
  | cons first rest ih =>
    rcases ih member with old | later
    · rw [mergeWindow] at old
      split at old
      · exact .inl old
      · rcases List.mem_append.mp old with held | new
        · exact .inl held
        · exact .inr (List.mem_singleton.mp new ▸ List.mem_cons_self ..)
    · exact .inr (List.mem_cons_of_mem _ later)

end Merging

section Showing

/-- A published window has the uuid of the window it shows. -/
theorem WorkspaceWindow.Published.windowUuid {window shown : WorkspaceWindow}
    (published : window.Published shown) :
    shown.windowUuid = window.windowUuid := by
  have same := congrArg WorkspaceWindow.windowUuid published.others
  exact same

/-- A window within the bounds is published within the bounds. -/
theorem WorkspaceWindow.Published.bounded {window shown : WorkspaceWindow}
    (published : window.Published shown)
    (bounded : window.Bounded) : shown.Bounded := by
  have count : shown.tabs.length = window.tabs.length := published.tabs.length_eq.symm
  -- A tab keeps its texts, and its session or none.
  have tabs : ∀ tab ∈ shown.tabs, tab.Bounded := by
    have alike := published.tabs
    have all := bounded.tabs
    clear bounded count published
    generalize window.tabs = before at alike all
    generalize shown.tabs = after at alike
    induction alike with
    | nil => exact fun tab member => nomatch member
    | @cons tab show_ rest others same later ih =>
      intro other member
      rcases List.mem_cons.mp member with rfl | behind
      · have own := all tab (List.mem_cons_self ..)
        refine ⟨?_, ?_, ?_⟩
        · rcases same.session with kept | gone
          · exact kept ▸ own.sessionUuid
          · exact gone ▸ Nat.zero_le _
        · exact (congrArg WorkspaceTab.label same.others) ▸ own.label
        · exact (congrArg WorkspaceTab.customLabel same.others) ▸ own.customLabel
      · exact ih (fun tab member => all tab (List.mem_cons_of_mem _ member)) other behind
  -- The rest of the window has not changed, and the active tab is clamped to as many tabs.
  refine ⟨?_, ?_, ?_, by rw [count]; exact bounded.tabCount, tabs, ?_⟩
  · exact published.windowUuid ▸ bounded.windowUuid
  · exact (congrArg WorkspaceWindow.geometry published.others) ▸ bounded.geometry
  · exact (congrArg WorkspaceWindow.dockState published.others) ▸ bounded.dockState
  · have same := congrArg WorkspaceWindow.activeTabIndex published.others
    have index : shown.activeTabIndex = window.activeTabIndex := same
    rw [index]
    simpa [clampIndex, count] using bounded.active

/-- Windows picked by a uuid that clamping leaves alone are published as the windows picked by the
clamped uuid. -/
theorem published_filter {uuid : Utf16} {windows shown : List WorkspaceWindow}
    (alike : List.Forall₂ WorkspaceWindow.Published windows shown)
    (stands : ∀ window ∈ windows, ClampString window.windowUuid MAX_UUID_LENGTH = uuid ↔
    window.windowUuid = uuid) :
    List.Forall₂ WorkspaceWindow.Published (windows.filter (·.windowUuid = uuid))
      (shown.filter (ClampString ·.windowUuid MAX_UUID_LENGTH = uuid)) := by
  -- A window is picked by its own uuid; clamping maps no other uuid to it.
  induction alike with
  | nil => exact .nil
  | @cons window show_ rest others same later ih =>
    have tail := ih fun other member => stands other (List.mem_cons_of_mem _ member)
    have own := stands window (List.mem_cons_self ..)
    by_cases picked : window.windowUuid = uuid
    · have clamped : ClampString show_.windowUuid MAX_UUID_LENGTH = uuid := by
        rw [same.windowUuid]
        exact own.mpr picked
      rw [List.filter_cons_of_pos (by simpa using picked),
        List.filter_cons_of_pos (by simpa using clamped)]
      exact .cons same tail
    · have clamped : ClampString show_.windowUuid MAX_UUID_LENGTH ≠ uuid := by
        rw [same.windowUuid]
        exact fun held => picked (own.mp held)
      rw [List.filter_cons_of_neg (by simpa using picked),
        List.filter_cons_of_neg (by simpa using clamped)]
      exact tail

end Showing

namespace WorkspaceStore

/-- The disk is complete, and the windows on it and in the slot are within the bounds. -/
structure Sound (store : WorkspaceStore) : Prop where
  complete : store.disk.Complete
  manifest : ∀ manifest, store.disk.manifest = some manifest → manifest.Bounded
  deferred : ∀ window ∈ store.deferredSlot.windows, window.Bounded

/-- A deferred window with a uuid, the first of its uuid and not captured, is in the manifest once,
as long as all the windows fit. -/
def KeepsDeferred (store : WorkspaceStore) (captured manifest : Workspace) : Prop :=
  ∀ window, store.deferredSlot.windows.find? (·.windowUuid = window.windowUuid) = some window →
    window.windowUuid ≠ [] →
    (∀ held ∈ captured.windows, ClampString held.windowUuid MAX_UUID_LENGTH ≠ window.windowUuid) →
    (store.merged captured).windows.length ≤ MAX_WINDOWS →
    ∃ shown, manifest.windows.filter (·.windowUuid = window.windowUuid) = [shown] ∧
      window.Published shown

/-- What a disk shows as its workspace is within the bounds. -/
theorem Sound.read {store : WorkspaceStore} (sound : store.Sound) {window : WorkspaceWindow}
    (member : window ∈ store.disk.Read.windows) : window.Bounded := by
  rw [WorkspaceDisk.Read] at member
  -- Only a manifest of the known version has windows.
  cases held : store.disk.manifest with
  | none => simp [held, Workspace.empty] at member
  | some manifest =>
    simp only [held, Option.elim_some] at member
    split at member
    · exact (sound.manifest manifest held).windows window member
    · simp [Workspace.empty] at member

/-- A new manifest keeps the deferred windows. -/
theorem Sound.keepsDeferred {store : WorkspaceStore} (sound : store.Sound)
    {captured manifest : Workspace}
    (new : NewManifest store.disk (store.merged captured) manifest) :
    store.KeepsDeferred captured manifest := by
  intro window first filled elsewhere fits
  obtain ⟨shown, alike, windows⟩ := new.windows
  have inSlot := List.mem_of_find?_eq_some first
  have bounded := sound.deferred window inSlot
  have all : shown.take MAX_WINDOWS = shown := List.take_of_length_le (alike.length_eq ▸ fits)
  have absent : window.windowUuid ∉ captured.windows.map (·.windowUuid) := by
    intro member
    obtain ⟨held, there, same⟩ := List.mem_map.mp member
    exact elsewhere held there (by rw [same]; exact clampString_of_le bounded.windowUuid)
  -- Clamping touches no uuid of a deferred window, and makes no captured one the same.
  have stands : ∀ held ∈ (store.merged captured).windows,
      ClampString held.windowUuid MAX_UUID_LENGTH = window.windowUuid ↔
        held.windowUuid = window.windowUuid := by
    intro held member
    rcases mem_of_mem_foldl_mergeWindow member with live | slot
    · refine iff_of_false (elsewhere held live) fun same => ?_
      exact absent (List.mem_map.mpr ⟨held, live, same⟩)
    · rw [clampString_of_le (sound.deferred held slot).windowUuid]
  have picked := published_filter alike stands
  have one : (store.merged captured).windows.filter (·.windowUuid = window.windowUuid) =
      [window] := by
    have merged := filter_foldl_mergeWindow filled store.deferredSlot.windows captured.windows
    rw [if_neg absent, first] at merged
    exact merged
  rw [one] at picked
  obtain ⟨show_, rest, published, none_, parts⟩ := List.forall₂_cons_left_iff.mp picked
  obtain rfl := List.forall₂_nil_left_iff.mp none_
  refine ⟨show_, ?_, published⟩
  rw [windows, all, List.filter_map]
  have same : shown.filter ((fun window_ : WorkspaceWindow =>
    decide (window_.windowUuid = window.windowUuid)) ∘
      sanitizeWindow) = [show_] := parts
  rw [same, List.map_singleton, (published.bounded bounded).sanitize]

section Reading

variable [QUuid]

/-- After an event the manifest is the old one, or the new one of a quit that keeps what was
deferred; and every session it names has its snapshot. -/
structure Publishes (store : WorkspaceStore) (event : WorkspaceEvent) : Prop where
  complete : (store.next event).disk.Complete
  manifest : (store.next event).disk.manifest = store.disk.manifest ∨
    ∃ captured faults stop manifest, event = .quit captured faults stop ∧
      (store.next event).disk.manifest = some manifest ∧
      NewManifest store.disk (store.merged captured) manifest ∧
        store.KeepsDeferred captured manifest

/-- The published workspace names no session in two tabs, or no copy fails; and it names its
sessions by files. -/
def NamesOnce (store : WorkspaceStore) : WorkspaceEvent → Prop
  | .quit captured faults _ =>
    SnapshotCopy.Safe faults (sessionUuids (store.merged captured).windows) ∧
      NamesFiles (sessionUuids (store.merged captured).windows)
  | _ => True

/-- An event of a sound store publishes completely, and leaves a sound store. -/
theorem Sound.publishes {store : WorkspaceStore} (sound : store.Sound) {event : WorkspaceEvent}
    (once : store.NamesOnce event) : store.Publishes event ∧ (store.next event).Sound := by
  -- An empty workspace has no window whose texts could be too long.
  have none_ : ∀ window ∈ Workspace.empty.windows, window.Bounded :=
    fun window member => absurd member List.not_mem_nil
  cases event with
  -- A launch changes memory only: what it defers comes from the manifest that was read.
  | launch restoreCap =>
    cases restoreCap with
    | none => exact ⟨⟨sound.complete, .inl rfl⟩, ⟨sound.complete, sound.manifest, none_⟩⟩
    | some restoreCap =>
      refine ⟨⟨sound.complete, .inl rfl⟩, ⟨sound.complete, sound.manifest, fun window member => ?_⟩⟩
      simp only [next, LoadForLaunch, PlanRestore] at member
      split at member
      · simp [Workspace.empty] at member
      · split at member
        · simp [Workspace.empty] at member
        · exact sound.read (List.mem_of_mem_drop member)
  | recents files =>
    exact ⟨⟨sound.complete, .inl rfl⟩, ⟨sound.complete, sound.manifest, sound.deferred⟩⟩
  -- A quit may stop before or behind the manifest.
  | quit captured faults stop =>
    rcases publish_stops store.disk once.1 once.2 stop with
      ⟨old, snapshots⟩ | ⟨manifest, new, publishes, named⟩
    · -- Before it, the old manifest stands, and its snapshots do.
      have same : (store.next (.quit captured faults stop)).disk.Read = store.disk.Read := by
        simp only [next, WorkspaceDisk.Read, old]
      have complete : (store.next (.quit captured faults stop)).disk.Complete := by
        intro uuid member
        rw [same] at member ⊢
        exact (snapshots uuid).mpr (sound.complete uuid member)
      exact ⟨⟨complete, .inl old⟩,
        ⟨complete, fun manifest held => sound.manifest manifest (old.symm.trans held),
        none_⟩⟩
    · -- Behind it, the new manifest names snapshots that have been copied.
      have complete : (store.next (.quit captured faults stop)).disk.Complete := by
        intro uuid member
        simp only [next, WorkspaceDisk.Read, new, Option.elim_some] at member ⊢
        split at member
        · rename_i fits
          rw [if_pos fits]
          exact named uuid member
        · simp [sessionUuids, Workspace.empty] at member
      refine ⟨⟨complete, .inr ⟨captured, faults, stop, manifest, rfl, new, publishes,
        sound.keepsDeferred publishes⟩⟩,
        ⟨complete, fun held there => ?_, none_⟩⟩
      exact Option.some.inj (new.symm.trans there) ▸ publishes.bounded

/-- A store before the first launch, with the files of the session history. -/
def fresh (recents : List Utf16) : WorkspaceStore := ⟨⟨none, [], recents⟩, .empty⟩

/-- Over any run from the fresh store: every event leaves the old manifest, or the new one with the
deferred windows; and every session that the manifest names has its snapshot. -/
theorem run_publishes {recents : List Utf16} {events : List WorkspaceEvent}
    (once : CleanRun step NamesOnce (fresh recents) events) :
    CleanRun step Publishes (fresh recents) events := by
  -- At the start there is no manifest, so nothing names a missing snapshot.
  have start : (fresh recents).Sound := by
    refine ⟨fun uuid member => ?_, fun manifest held => (nomatch held), fun window member =>
      (nomatch member)⟩
    simp [fresh, WorkspaceDisk.Read, Workspace.empty, sessionUuids] at member
  have kept : ∀ (store : WorkspaceStore) (event : WorkspaceEvent) (next : WorkspaceStore),
    store.Sound →
      store.NamesOnce event → store.step event = some next → next.Sound := by
    intro store event next sound once done
    obtain rfl := Option.some.inj done
    exact (sound.publishes once).2
  exact once.imp kept (fun store event sound once => (sound.publishes once).1) start

/-- No operation of the publish fails. -/
def calm : PublishFaults := ⟨calmFaults, true, fun _ => true, fun _ => true⟩

end Reading

section Examples

attribute [local instance] printedUuids

/-- Windows without tabs. -/
def bareWindows (uuids : List Utf16) : Workspace :=
  ⟨SCHEMA_VERSION, 0, uuids.map (⟨·, [], [], [], 0⟩), []⟩

/-- A window with a tab for each of some sessions. -/
def sessionWindow (windowUuid : Utf16) (sessions : List Utf16) : WorkspaceWindow :=
  ⟨windowUuid, [], [], sessions.map (⟨·, [], [], .file, .restore⟩), 0⟩

/-- Two windows are published, each with a session, and a launch restores one of them. -/
def sessionEvents : List WorkspaceEvent :=
  [.quit ⟨SCHEMA_VERSION, 0, [sessionWindow [0x61] [uuidOf '1'], sessionWindow [0x62] [uuidOf '2']],
    []⟩ calm 9,
    .launch (some 1), .quit (bareWindows [[0x61]]) calm 9]

/-- The second window comes back with the window of the launch, and its session is copied into the
new generation. -/
theorem twoWindows_publish :
    CleanRun step Publishes (fresh [uuidOf '1', uuidOf '2']) sessionEvents ∧
      (sessionEvents.foldl next (fresh [uuidOf '1', uuidOf '2'])).disk.snapshots =
        [(2, uuidOf '2')] := by
  -- Both publications name their sessions once, and every name is a file name.
  refine ⟨run_publishes ⟨⟨.inr fun _ => rfl, ?_⟩, fun middle done => ⟨trivial, fun last restored =>
    ⟨⟨.inr fun _ => rfl, ?_⟩, fun _ _ => trivial⟩⟩⟩, by decide +kernel⟩
  · have names : ∀ uuid ∈ sessionUuids [sessionWindow [0x61] [uuidOf '1'], sessionWindow [0x62]
      [uuidOf '2']],
        IsFileName uuid := by decide +kernel
    exact fun uuid member _ => names uuid member
  · obtain rfl := Option.some.inj done
    obtain rfl := Option.some.inj restored
    have names : ∀ uuid ∈ sessionUuids
      (((sessionEvents.take 2).foldl next (fresh [uuidOf '1', uuidOf '2'])).merged
        (bareWindows [[0x61]])).windows, IsFileName uuid := by decide +kernel
    exact fun uuid member _ => names uuid member

/-- Two windows are published, and a launch restores one of them. -/
def twoWindows : List WorkspaceEvent :=
  [.quit (bareWindows [[0x61], [0x62]]) calm 9, .launch (some 1)]

/-- With as many captured windows as a workspace holds, the deferred one is published nowhere. -/
theorem twoWindows_lost :
    let captured := bareWindows ((List.range 64).map fun number => [0x63, UInt16.ofNat number])
    let store := twoWindows.foldl next (fresh [])
    store.deferredSlot.windows.map (·.windowUuid) = [[0x62]] ∧
      [0x62] ∉ captured.windows.map (·.windowUuid) ∧
      (Publish calm store.disk (store.merged captured)).1 = true ∧
      [0x62] ∉ (store.next (.quit captured calm 9)).disk.Read.windows.map (·.windowUuid) := by
  decide +kernel

end Examples

end WorkspaceStore

end Loglib
