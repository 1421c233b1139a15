import Loglib.App.UuidUtils

/-! The recent sessions: an index in the settings, one file a session, and the steps that
persist them. -/

namespace Loglib

/-- An entry of the index. -/
structure RecentSessionEntry where
  uuid : Utf16
  label : Utf16
  primaryLocator : Utf16
  fileCount : Int
  timestampMsEpoch : Int
deriving DecidableEq

/-- The number of entries where none is set. -/
def MAX_ENTRIES : Int := 25

/-- The least number of entries that can be set. -/
def MAX_ENTRIES_LOWER_BOUND : Int := 1

/-- The largest number of entries that can be set. -/
def MAX_ENTRIES_UPPER_BOUND : Int := 200

/-- The most slots that are read. -/
def CORRUPT_PROFILE_CAP : Nat := 200 * 4

/-- The most files that one sweep removes. -/
def CLEANUP_DELETIONS_PER_LAUNCH : Nat := 5000

/-- What is persisted: the slots and their number, the last session, the session files and
the setting. -/
structure RecentsStore where
  slots : List RecentSessionEntry
  size : Nat
  lastSessionUuid : Option Utf16
  files : List Utf16
  maxEntries : Option Int

/-- One persisted step. -/
inductive RecentsChange where
  | saveFile (uuid : Utf16)
  | removeFile (uuid : Utf16)
  | syncEntries (entries : List RecentSessionEntry)
  | syncSize (size : Nat)
  | syncLastUuid (uuid : Option Utf16)
  | syncMaxEntries (maxEntries : Int)

/-- A call of the session history. -/
inductive RecentsCall where
  /-- The uuid is the reused one, or the created one where none is reused. -/
  | writeSnapshot (reuseUuid created : Utf16) (metadata : RecentSessionEntry)
  | touch (uuid : Utf16) (now : Int)
  | remove (uuid : Utf16)
  | clear
  | cleanupOrphanFiles
  | setMaxEntries (maxEntries : Int)

namespace RecentsStore

variable [QUuid]

/-- `Read`: the slots up to the size, without those that hold no uuid. -/
def Read (store : RecentsStore) : List RecentSessionEntry :=
  (store.slots.take (min store.size CORRUPT_PROFILE_CAP)).filter fun entry =>
    LooksLikeUuid entry.uuid

/-- The uuids of the index. -/
def uuids (store : RecentsStore) : List Utf16 := store.Read.map (·.uuid)

/-- `MaxEntries`: the setting within its bounds. -/
def MaxEntries (store : RecentsStore) : Int :=
  store.maxEntries.elim MAX_ENTRIES fun value =>
    max MAX_ENTRIES_LOWER_BOUND (min value MAX_ENTRIES_UPPER_BOUND)

/-- The store after a persisted step. -/
def apply (store : RecentsStore) : RecentsChange → RecentsStore
  | .saveFile uuid =>
    { store with files := if uuid ∈ store.files then store.files else store.files ++ [uuid] }
  | .removeFile uuid => { store with files := store.files.filter (· ≠ uuid) }
  | .syncEntries entries => { store with slots := entries }
  | .syncSize size => { store with size }
  | .syncLastUuid uuid => { store with lastSessionUuid := uuid }
  | .syncMaxEntries maxEntries => { store with maxEntries := some maxEntries }

/-- `Write`: the slots are persisted first, and then their number. -/
def Write (entries : List RecentSessionEntry) : List RecentsChange :=
  [.syncEntries entries, .syncSize entries.length]

/-- `WriteLastUuid`. -/
def WriteLastUuid (uuid : Option Utf16) : List RecentsChange :=
  [.syncLastUuid (uuid.filter (· ≠ []))]

/-- `RemoveUuidFileLocked`, for some sessions. -/
def RemoveUuidFiles (uuids : List Utf16) : List RecentsChange := uuids.map .removeFile

/-- The entries without the first one of a uuid. -/
def without (entries : List RecentSessionEntry) (uuid : Utf16) : List RecentSessionEntry :=
  entries.eraseP (·.uuid = uuid)

/-- The entries that a new or renewed entry leads. -/
def prepended (store : RecentsStore) (entry : RecentSessionEntry) : List RecentSessionEntry :=
  entry :: without store.Read entry.uuid

/-- The entries that stay, after the eviction of the last ones. -/
def keptEntries (store : RecentsStore) (entry : RecentSessionEntry) : List RecentSessionEntry :=
  (store.prepended entry).take store.MaxEntries.toNat

/-- The uuids that are evicted, the last one first. -/
def evictedUuids (store : RecentsStore) (entry : RecentSessionEntry) : List Utf16 :=
  ((store.prepended entry).drop store.MaxEntries.toNat).reverse.map (·.uuid)

/-- Whether the entry leads the index already, with the same data. -/
def inPlaceFastPath (store : RecentsStore) (entry : RecentSessionEntry) : Bool :=
  store.Read.head?.any fun held => held.uuid = entry.uuid ∧ held.label = entry.label ∧
    held.primaryLocator = entry.primaryLocator ∧ held.fileCount = entry.fileCount

/-- The entry of a snapshot. -/
def snapshotEntry (reuseUuid created : Utf16) (metadata : RecentSessionEntry) :
    RecentSessionEntry :=
  { metadata with uuid := if reuseUuid = [] then created else reuseUuid }

/-- `WriteSnapshot`: the file first, then the index and the last session, and at the end
the evicted files. -/
def WriteSnapshot (store : RecentsStore) (entry : RecentSessionEntry) : List RecentsChange :=
  if LooksLikeUuid entry.uuid then
    .saveFile entry.uuid ::
      if store.inPlaceFastPath entry then
        if store.lastSessionUuid = some entry.uuid then [] else WriteLastUuid (some entry.uuid)
      else
        Write (store.keptEntries entry) ++ WriteLastUuid (some entry.uuid) ++
          RemoveUuidFiles (store.evictedUuids entry)
  else []

/-- `Touch`: the entry goes to the front with a new time. -/
def Touch (store : RecentsStore) (uuid : Utf16) (now : Int) : List RecentsChange :=
  if LooksLikeUuid uuid then
    (store.Read.find? (·.uuid = uuid)).elim [] fun held =>
      Write (store.prepended { held with timestampMsEpoch := now }) ++
        if store.lastSessionUuid = some uuid then [] else WriteLastUuid (some uuid)
  else []

/-- `Remove`: the index first, then the last session where it is the removed one, and at
the end the file. -/
def Remove (store : RecentsStore) (uuid : Utf16) : List RecentsChange :=
  if LooksLikeUuid uuid ∧ uuid ∈ store.uuids then
    Write (without store.Read uuid) ++
      (if store.lastSessionUuid = some uuid then WriteLastUuid
        ((without store.Read uuid).head?.map (·.uuid)) else []) ++
      RemoveUuidFiles [uuid]
  else []

/-- `Clear`: the index and the last session, and at the end all files of the index. -/
def Clear (store : RecentsStore) : List RecentsChange :=
  Write [] ++ WriteLastUuid none ++ RemoveUuidFiles store.uuids

/-- `CleanupOrphanFiles`: remove the session files that the index does not name. -/
def CleanupOrphanFiles (store : RecentsStore) : List RecentsChange :=
  RemoveUuidFiles ((store.files.filter fun uuid => uuid ∉ store.uuids && LooksLikeUuid uuid).take
    CLEANUP_DELETIONS_PER_LAUNCH)

/-- The steps that a call persists, in order. -/
def steps (store : RecentsStore) : RecentsCall → List RecentsChange
  | .writeSnapshot reuseUuid created metadata =>
    store.WriteSnapshot (snapshotEntry reuseUuid created metadata)
  | .touch uuid now => store.Touch uuid now
  | .remove uuid => store.Remove uuid
  | .clear => store.Clear
  | .cleanupOrphanFiles => store.CleanupOrphanFiles
  | .setMaxEntries maxEntries =>
    [.syncMaxEntries (max MAX_ENTRIES_LOWER_BOUND (min maxEntries MAX_ENTRIES_UPPER_BOUND))]

/-- The store after a complete call. -/
def completed (store : RecentsStore) (call : RecentsCall) : RecentsStore :=
  (store.steps call).foldl apply store

/-- The store after a call that is interrupted behind so many persisted steps. -/
def interrupted (store : RecentsStore) (call : RecentsCall) (stop : Nat) : RecentsStore :=
  ((store.steps call).take stop).foldl apply store

/-- The sessions that a call removes or evicts. -/
def drops (store : RecentsStore) : RecentsCall → List Utf16
  | .writeSnapshot reuseUuid created metadata =>
    if store.inPlaceFastPath (snapshotEntry reuseUuid created metadata) then []
    else store.evictedUuids (snapshotEntry reuseUuid created metadata)
  | .remove uuid => [uuid]
  | .clear => store.uuids
  | _ => []

end RecentsStore

end Loglib
