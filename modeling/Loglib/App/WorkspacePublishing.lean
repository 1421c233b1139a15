import Loglib.App.UuidUtils
import Loglib.App.WorkspaceRoundTrip

/-! Publishing a workspace: snapshot copies, the manifest, the old generations, and
deferred windows. -/

namespace Loglib

/-- The files of the store: the manifest, the snapshots by generation and session, and the recent
sessions. -/
structure WorkspaceDisk where
  manifest : Option Workspace
  snapshots : List (UInt64 × Utf16)
  recents : List Utf16

/-- One change of the disk; a file is copied or replaced in one step. -/
inductive DiskChange where
  | removeSnapshot (generation : UInt64) (sessionUuid : Utf16)
  | copySnapshot (generation : UInt64) (sessionUuid : Utf16)
  | commitManifest (workspace : Workspace)

/-- What the file operations of a publish do; the copies and removals are counted from zero. -/
structure PublishFaults where
  manifest : WorkspaceFaults
  /-- The generation directory exists or is made. -/
  directory : Bool
  copies : Nat → Bool
  removals : Nat → Bool

namespace WorkspaceDisk

/-- What `Read` returns: a manifest above the size limit counts as none. -/
def Read (disk : WorkspaceDisk) : Workspace :=
  disk.manifest.elim .empty fun workspace =>
    if manifestSize workspace ≤ MAX_WORKSPACE_FILE_BYTES then workspace else .empty

/-- The disk after a change. -/
def apply (disk : WorkspaceDisk) : DiskChange → WorkspaceDisk
  | .removeSnapshot generation uuid =>
    { disk with snapshots := disk.snapshots.filter (· ≠ (generation, uuid)) }
  | .copySnapshot generation uuid =>
    { disk with snapshots := disk.snapshots ++ [(generation, uuid)] }
  | .commitManifest workspace => { disk with manifest := some workspace }

end WorkspaceDisk

/-- Snapshots being copied: the disk, the number of attempts, and the changes so far. -/
structure SnapshotCopy where
  disk : WorkspaceDisk
  attempts : Nat
  changes : List DiskChange

namespace SnapshotCopy

/-- Make a change. -/
def change (copy : SnapshotCopy) (made : DiskChange) : SnapshotCopy :=
  { copy with disk := copy.disk.apply made, changes := copy.changes ++ [made] }

/-- Drop the old file before a copy; the removal may fail. -/
def dropOld (faults : PublishFaults) (generation : UInt64) (uuid : Utf16) (copy : SnapshotCopy) :
    SnapshotCopy :=
  if (generation, uuid) ∈ copy.disk.snapshots ∧ faults.removals copy.attempts then
    copy.change (.removeSnapshot generation uuid)
  else copy

/-- `CopySnapshotFile` into a generation; the copy does not replace a file. -/
def CopySnapshotFile (faults : PublishFaults) (exists_ : Bool) (generation : UInt64) (uuid : Utf16)
    (copy : SnapshotCopy) : Bool × SnapshotCopy :=
  if exists_ then
    let dropped := copy.dropOld faults generation uuid
    if (generation, uuid) ∉ dropped.disk.snapshots ∧ faults.copies copy.attempts then
      (true, { dropped.change (.copySnapshot generation uuid) with attempts := copy.attempts + 1 })
    else (false, { dropped with attempts := copy.attempts + 1 })
  else (false, copy)

/-- Copy the snapshot of a tab, from the recent sessions or else from the previous generation. -/
def copyTab [QUuid] (faults : PublishFaults) (generation previous : UInt64) (copy : SnapshotCopy)
    (uuid : Utf16) :
    Bool × SnapshotCopy :=
  if uuid ≠ [] ∧ LooksLikeUuid uuid then
    let fromRecents := copy.CopySnapshotFile faults (uuid ∈ copy.disk.recents) generation uuid
    if fromRecents.1 then (true, fromRecents.2)
    else if previous ≠ 0 ∧ previous ≠ generation then
      fromRecents.2.CopySnapshotFile faults ((previous, uuid) ∈ fromRecents.2.disk.snapshots)
        generation uuid
    else (false, fromRecents.2)
  else (false, copy)

/-- The tabs in order; one whose snapshot is not copied loses its uuid. -/
def copyTabs [QUuid] (faults : PublishFaults) (generation previous : UInt64) :
    SnapshotCopy → List WorkspaceTab → List WorkspaceTab × SnapshotCopy
  | copy, [] => ([], copy)
  | copy, tab :: rest =>
    let copied := copy.copyTab faults generation previous tab.sessionUuid
    let later := copyTabs faults generation previous copied.2 rest
    ((if copied.1 then tab else { tab with sessionUuid := [] }) :: later.1, later.2)

/-- The windows in order. -/
def copyWindows [QUuid] (faults : PublishFaults) (generation previous : UInt64) :
    SnapshotCopy → List WorkspaceWindow → List WorkspaceWindow × SnapshotCopy
  | copy, [] => ([], copy)
  | copy, window :: rest =>
    let copied := copyTabs faults generation previous copy window.tabs
    let later := copyWindows faults generation previous copied.2 rest
    ({ window with tabs := copied.1 } :: later.1, later.2)

end SnapshotCopy

/-- `WriteGenerationSnapshots`: the workspace with its copied sessions and the changes, `none` where
it fails. -/
def WriteGenerationSnapshots [QUuid] (faults : PublishFaults) (generation : UInt64)
    (disk : WorkspaceDisk)
    (workspace : Workspace) : Option (Workspace × SnapshotCopy) :=
  if generation = 0 ∨ faults.directory = false then none
  else
    let copied := SnapshotCopy.copyWindows faults generation disk.Read.generation ⟨disk, 0,
      []⟩ workspace.windows
    some ({ workspace with windows := copied.1 }, copied.2)

/-- `CollectSupersededGenerations`: drop the snapshots of the other generations; a removal
may fail. -/
def CollectSupersededGenerations (faults : PublishFaults) (keepGeneration : UInt64)
    (copy : SnapshotCopy) :
    List DiskChange :=
  ((copy.disk.snapshots.filter (·.1 ≠ keepGeneration)).zipIdx.filter fun entry =>
    faults.removals (copy.attempts + entry.2)).map fun entry => .removeSnapshot entry.1.1 entry.1.2

/-- `Publish`: whether it succeeds, and the changes it makes, in order. -/
def Publish [QUuid] (faults : PublishFaults) (disk : WorkspaceDisk) (workspace : Workspace) :
    Bool × List DiskChange :=
  if faults.manifest.publishes then
    let generation := disk.Read.generation + 1
    match WriteGenerationSnapshots faults generation disk workspace with
    -- The snapshots are copied first; nothing names them yet.
    | none => (false, [])
    | some (copied, copy) =>
      let manifest := { copied with generation, schemaVersion := SCHEMA_VERSION }
      if (WriteWorkspace faults.manifest none manifest).1 then
        -- The manifest is the commit point, and only then old generations are removed.
        let committed := copy.change (.commitManifest (Sanitize manifest))
        (true, committed.changes ++ CollectSupersededGenerations faults generation committed)
      else (false, copy.changes)
  else (false, [])

section Deferring

/-- The windows that are restored, and those that are held back. -/
structure RestorePlan where
  toRestore : Workspace
  deferred : Workspace

/-- `PlanRestore`: the first windows are restored, and the rest is deferred. -/
def PlanRestore (workspace : Workspace) (restoreCap : Nat) : RestorePlan :=
  if restoreCap = 0 ∨ workspace.windows.length ≤ restoreCap then ⟨workspace,
    { workspace with windows := [] }⟩
  else
    ⟨{ workspace with windows := workspace.windows.take restoreCap },
      { workspace with windows := workspace.windows.drop restoreCap }⟩

/-- Add a deferred window, unless it has no uuid or its uuid is there. -/
def mergeWindow (merged : List WorkspaceWindow) (window : WorkspaceWindow) : List WorkspaceWindow :=
  if window.windowUuid = [] ∨ window.windowUuid ∈ merged.map (·.windowUuid) then merged
    else merged ++ [window]

/-- Add a uuid to the focus order, unless it is there. -/
def mergeMru (merged : List Utf16) (uuid : Utf16) : List Utf16 :=
  if uuid = [] ∨ uuid ∈ merged then merged else merged ++ [uuid]

/-- `MergeCapturedWithDeferred`: the captured windows, and the deferred ones behind them. -/
def MergeCapturedWithDeferred (captured deferred : Workspace) : Workspace where
  schemaVersion := if captured.schemaVersion = 0 then deferred.schemaVersion
    else captured.schemaVersion
  generation := if captured.generation = 0 then deferred.generation else captured.generation
  windows := deferred.windows.foldl mergeWindow captured.windows
  mruOrder := (captured.mruOrder ++ deferred.mruOrder).foldl mergeMru []

/-- `LoadForLaunch`: the plan; what it defers goes into the slot. -/
def LoadForLaunch (disk : WorkspaceDisk) (restoreCap : Nat) : RestorePlan :=
  PlanRestore disk.Read restoreCap

end Deferring

/-- The files, and the deferred windows of the running process. -/
structure WorkspaceStore where
  disk : WorkspaceDisk
  deferredSlot : Workspace

/-- What happens to the store. -/
inductive WorkspaceEvent where
  /-- A process starts, and restores the workspace up to a cap or not at all. -/
  | launch (restoreCap : Option Nat)
  /-- The session history writes or drops its files. -/
  | recents (files : List Utf16)
  /-- A quit publishes the captured windows with the deferred ones, and stops after so
  many changes. -/
  | quit (captured : Workspace) (faults : PublishFaults) (stop : Nat)

namespace WorkspaceStore

/-- The workspace that a quit publishes. -/
def merged (store : WorkspaceStore) (captured : Workspace) : Workspace :=
  MergeCapturedWithDeferred captured store.deferredSlot

/-- The store after an event. -/
def next [QUuid] (store : WorkspaceStore) : WorkspaceEvent → WorkspaceStore
  | .launch none => { store with deferredSlot := .empty }
  | .launch (some restoreCap) =>
    let deferred := (LoadForLaunch store.disk restoreCap).deferred
    { store with deferredSlot := if deferred.windows = [] then .empty else deferred }
  | .recents files => { store with disk := { store.disk with recents := files } }
  | .quit captured faults stop =>
    { disk := ((Publish faults store.disk (store.merged captured)).2.take stop).foldl .apply store.disk
      deferredSlot := .empty }

/-- The events as a step function. -/
def step [QUuid] (store : WorkspaceStore) (event : WorkspaceEvent) : Option WorkspaceStore := some
    (store.next event)

end WorkspaceStore

end Loglib
