import Loglib.App.RecentSessions
import Loglib.Basic.Runs

/-! Interrupted calls of the session history: which crash points leave the index whole,
over whole runs. -/

namespace Loglib

/-- A persisted step that is not one of the index. -/
def RecentsChange.KeepsIndex : RecentsChange → Prop
  | .syncEntries _ => False
  | .syncSize _ => False
  | _ => True

namespace RecentsStore

section Steps

/-- The uuids without one of them. -/
theorem map_without (entries : List RecentSessionEntry) (uuid : Utf16) :
    (without entries uuid).map (·.uuid) = (entries.map (·.uuid)).erase uuid := by
  -- The first entry with the uuid goes.
  induction entries with
  | nil => rfl
  | cons entry rest ih =>
    by_cases same : entry.uuid = uuid
    · simp [without, same]
    · simp only [without, List.map_cons] at ih ⊢
      rw [List.eraseP_cons_of_neg (by simpa using same), List.erase_cons_tail (by simpa using same),
        List.map_cons, ih]

/-- The setting is between its bounds. -/
theorem maxEntries_bounds (store : RecentsStore) :
    1 ≤ store.MaxEntries ∧ store.MaxEntries ≤ 200 := by
  simp only [MaxEntries]
  cases store.maxEntries with
  | none => decide
  | some value =>
    simp only [Option.elim_some, MAX_ENTRIES_LOWER_BOUND, MAX_ENTRIES_UPPER_BOUND]
    omega

/-- Removing files changes the files only. -/
theorem foldl_removeFiles (gone : List Utf16) (store : RecentsStore) :
    (RemoveUuidFiles gone).foldl apply store =
      { store with files := store.files.filter (· ∉ gone) } := by
  -- One file after the other.
  induction gone generalizing store with
  | nil => simp [RemoveUuidFiles]
  | cons uuid rest ih =>
    rw [RemoveUuidFiles] at ih ⊢
    rw [List.map_cons, List.foldl_cons, ih, apply, List.filter_filter]
    congr 1
    refine List.filter_congr fun other _ => ?_
    simp [Bool.and_comm]

/-- The front of some removals. -/
theorem take_removeFiles (gone : List Utf16) (stop : Nat) :
    (RemoveUuidFiles gone).take stop = RemoveUuidFiles (gone.take stop) := (List.map_take ..).symm

/-- Steps that are not of the index leave it as it is. -/
theorem read_foldl_keeps {changes : List RecentsChange}
    (keeps : ∀ change ∈ changes, change.KeepsIndex)
    (store : RecentsStore) : (changes.foldl apply store).slots = store.slots ∧
      (changes.foldl apply store).size = store.size := by
  induction changes generalizing store with
  | nil => exact ⟨rfl, rfl⟩
  | cons change rest ih =>
    have later := ih (fun other member => keeps other (List.mem_cons_of_mem _ member))
      (store.apply change)
    have own := keeps change (List.mem_cons_self ..)
    -- A change that keeps the index writes neither slots nor size.
    cases change with
    | syncEntries entries => exact own.elim
    | syncSize size => exact own.elim
    | _ => exact later

/-- Removals are not steps of the index. -/
theorem keepsIndex_removeFiles (gone : List Utf16) :
    ∀ change ∈ RemoveUuidFiles gone, change.KeepsIndex := by
  intro change member
  obtain ⟨uuid, -, rfl⟩ := List.mem_map.mp member
  trivial

end Steps

section Reading

variable [QUuid] {store : RecentsStore}

/-- The index names each session once, every session has its file, and the last session is
one of them. -/
structure Consistent (store : RecentsStore) : Prop where
  distinct : store.uuids.Nodup
  files : ∀ uuid ∈ store.uuids, uuid ∈ store.files
  last : ∀ uuid, store.lastSessionUuid = some uuid → uuid ∈ store.uuids
  few : store.Read.length ≤ 200

/-- What an interrupted call leaves is consistent, it is the index before or after the call, and a
sweep keeps the files of the sessions that the call does not drop. -/
structure Behaves (store : RecentsStore) (event : RecentsCall × Nat) : Prop where
  distinct : (store.interrupted event.1 event.2).uuids.Nodup
  files : ∀ uuid ∈ (store.interrupted event.1 event.2).uuids,
    uuid ∈ (store.interrupted event.1 event.2).files
  last : ∀ uuid, (store.interrupted event.1 event.2).lastSessionUuid = some uuid →
    uuid ∈ (store.interrupted event.1 event.2).uuids
  index : (store.interrupted event.1 event.2).Read = store.Read ∨
    (store.interrupted event.1 event.2).Read = (store.completed event.1).Read
  swept : ∀ uuid ∈ store.uuids, uuid ∉ store.drops event.1 →
    ∀ stop, uuid ∈ ((store.interrupted event.1 event.2).interrupted .cleanupOrphanFiles stop).files

/-- The crash is not between the slots and their number where the index grows, and not between the
slots and the last session where the last session leaves the index. -/
def Meets (store : RecentsStore) : RecentsCall × Nat → Prop
  | (.writeSnapshot reuseUuid created metadata, stop) =>
    let entry := snapshotEntry reuseUuid created metadata
    LooksLikeUuid entry.uuid → store.inPlaceFastPath entry = false →
      (stop = 2 → store.size = 0 ∨
        (store.keptEntries entry).length ≤ min store.size CORRUPT_PROFILE_CAP) ∧
      (stop = 2 ∨ stop = 3 → ∀ uuid, store.lastSessionUuid = some uuid →
        uuid ∉ store.evictedUuids entry)
  | (.remove uuid, stop) => stop = 1 ∨ stop = 2 → store.lastSessionUuid ≠ some uuid
  | (.clear, stop) => stop = 1 ∨ stop = 2 → store.lastSessionUuid = none
  | _ => True

section Lists

/-- Every entry that is read has a uuid. -/
theorem looksLikeUuid_of_mem_read {entry : RecentSessionEntry} (member : entry ∈ store.Read) :
    LooksLikeUuid entry.uuid = true := (List.mem_filter.mp member).2

/-- No more entries are read than the size says. -/
theorem length_read_le (store : RecentsStore) :
    store.Read.length ≤ min store.size CORRUPT_PROFILE_CAP :=
  (List.length_filter_le ..).trans (List.length_take_le ..)

/-- Slots that all hold uuids, and fit the size, are read as they are. -/
theorem read_of_valid {entries : List RecentSessionEntry}
    (valid : ∀ entry ∈ entries, LooksLikeUuid entry.uuid = true)
    (slots : store.slots = entries) (fits : entries.length ≤ min store.size CORRUPT_PROFILE_CAP) :
    store.Read = entries := by
  rw [Read, slots, List.take_of_length_le fits]
  exact List.filter_eq_self.mpr fun entry member => valid entry member

/-- Without a size, nothing is read. -/
theorem read_of_size_zero (none_ : store.size = 0) : store.Read = [] := by
  simp [Read, none_]

/-- The uuids of the index with a new or renewed entry in front. -/
theorem map_prepended (store : RecentsStore) (entry : RecentSessionEntry) :
    (store.prepended entry).map (·.uuid) = entry.uuid :: store.uuids.erase entry.uuid := by
  rw [prepended, List.map_cons, map_without, uuids]

/-- A new or renewed entry in front of a consistent index repeats no uuid. -/
theorem Consistent.nodup_prepended (consistent : store.Consistent) (entry : RecentSessionEntry) :
    ((store.prepended entry).map (·.uuid)).Nodup := by
  rw [map_prepended]
  exact List.nodup_cons.mpr ⟨fun member => absurd member consistent.distinct.not_mem_erase,
    consistent.distinct.erase _⟩

/-- Every session of the index is one of the new list. -/
theorem mem_prepended (entry : RecentSessionEntry) {uuid : Utf16} (member : uuid ∈ store.uuids) :
    uuid ∈ (store.prepended entry).map (·.uuid) := by
  rw [map_prepended]
  by_cases same : uuid = entry.uuid
  · exact List.mem_cons.mpr (.inl same)
  · exact List.mem_cons_of_mem _ ((List.mem_erase_of_ne same).mpr member)

/-- The entries of the new list have uuids. -/
theorem valid_prepended {entry : RecentSessionEntry} (own : LooksLikeUuid entry.uuid = true) :
    ∀ held ∈ store.prepended entry, LooksLikeUuid held.uuid = true := by
  intro held member
  rcases List.mem_cons.mp member with rfl | old
  · exact own
  · exact looksLikeUuid_of_mem_read (List.mem_of_mem_eraseP old)

/-- The new list keeps the front, and evicts the rest. -/
theorem kept_evicted (store : RecentsStore) (entry : RecentSessionEntry) {uuid : Utf16} :
    uuid ∈ (store.prepended entry).map (·.uuid) ↔
      uuid ∈ (store.keptEntries entry).map (·.uuid) ∨ uuid ∈ store.evictedUuids entry := by
  have whole : store.prepended entry = store.keptEntries entry ++
      (store.prepended entry).drop store.MaxEntries.toNat :=
    (List.take_append_drop ..).symm
  conv_lhs => rw [whole, List.map_append, List.mem_append]
  rw [evictedUuids, List.map_reverse, List.mem_reverse]

/-- No session is both kept and evicted. -/
theorem Consistent.disjoint_evicted (consistent : store.Consistent) {entry : RecentSessionEntry}
    {uuid : Utf16}
    (kept : uuid ∈ (store.keptEntries entry).map (·.uuid)) : uuid ∉ store.evictedUuids entry := by
  have distinct := consistent.nodup_prepended entry
  rw [← List.take_append_drop store.MaxEntries.toNat (store.prepended entry),
    List.map_append] at distinct
  rw [evictedUuids, List.map_reverse, List.mem_reverse]
  exact fun evicted => (List.nodup_append.mp distinct).2.2 _ kept _ evicted rfl

end Lists

section Calls

/-- A store is consistent by the list that it reads. -/
theorem consistent_of_read {entries : List RecentSessionEntry} (read : store.Read = entries)
    (distinct : (entries.map (·.uuid)).Nodup)
    (files : ∀ uuid ∈ entries.map (·.uuid), uuid ∈ store.files)
    (last : ∀ uuid, store.lastSessionUuid = some uuid → uuid ∈ entries.map (·.uuid))
    (few : entries.length ≤ 200) :
    store.Consistent := by
  have uuids : store.uuids = entries.map (·.uuid) := by rw [RecentsStore.uuids, read]
  exact ⟨uuids ▸ distinct, uuids ▸ files, uuids ▸ last, read ▸ few⟩

/-- A list that may be written: its entries are uuids, none twice, and no more than can be set. -/
structure Writable (entries : List RecentSessionEntry) : Prop where
  valid : ∀ entry ∈ entries, LooksLikeUuid entry.uuid = true
  distinct : (entries.map (·.uuid)).Nodup
  few : entries.length ≤ 200

/-- Slots and their number, both written, are read as they are. -/
theorem Writable.read {entries : List RecentSessionEntry} (writable : Writable entries)
    (slots : store.slots = entries)
    (size : store.size = entries.length) : store.Read = entries := by
  have := writable.few
  refine read_of_valid writable.valid slots ?_
  rw [size, CORRUPT_PROFILE_CAP]
  omega

/-- Fewer entries may be written as well. -/
theorem Writable.sublist {entries fewer : List RecentSessionEntry} (writable : Writable entries)
    (part : fewer.Sublist entries) : Writable fewer where
  valid entry member := writable.valid entry (part.subset member)
  distinct := writable.distinct.sublist (part.map _)
  few := part.length_le.trans writable.few

/-- The index itself may be written. -/
theorem Consistent.writable (consistent : store.Consistent) : Writable store.Read :=
  ⟨fun _ member => looksLikeUuid_of_mem_read member, consistent.distinct, consistent.few⟩

/-- The entries that are kept may be written. -/
theorem Consistent.writable_kept (consistent : store.Consistent) {entry : RecentSessionEntry}
    (own : LooksLikeUuid entry.uuid = true) : Writable (store.keptEntries entry) where
  valid held member := valid_prepended own held (List.mem_of_mem_take member)
  distinct := (consistent.nodup_prepended entry).sublist ((List.take_sublist ..).map _)
  few := by
    have := store.maxEntries_bounds
    refine (List.length_take_le ..).trans ?_
    omega

/-- What one event leaves: a consistent store with the index before or after the call. -/
def Leaves (store : RecentsStore) (call : RecentsCall) (next : RecentsStore) : Prop :=
  next.Consistent ∧ (next.Read = store.Read ∨ next.Read = (store.completed call).Read)

/-- The new entry is one of those that are kept. -/
theorem mem_keptEntries (store : RecentsStore) (entry : RecentSessionEntry) :
    entry.uuid ∈ (store.keptEntries entry).map (·.uuid) := by
  obtain ⟨least, -⟩ := store.maxEntries_bounds
  obtain ⟨count, some_⟩ : ∃ count, store.MaxEntries.toNat = count + 1 :=
    ⟨store.MaxEntries.toNat - 1, by omega⟩
  simp [keptEntries, prepended, some_]

/-- A snapshot, interrupted anywhere but at its two weak points. -/
theorem Consistent.writeSnapshot (consistent : store.Consistent) (reuseUuid created : Utf16)
    (metadata : RecentSessionEntry) {stop : Nat}
    (meets : store.Meets (.writeSnapshot reuseUuid created metadata, stop)) :
    store.Leaves (.writeSnapshot reuseUuid created metadata)
      (store.interrupted (.writeSnapshot reuseUuid created metadata) stop) := by
  simp only [Meets] at meets
  simp only [Leaves, interrupted, completed, steps]
  generalize snapshotEntry reuseUuid created metadata = entry at meets ⊢
  by_cases own : LooksLikeUuid entry.uuid = true
  swap
  · -- An entry whose uuid is no uuid is not written at all.
    have none_ : store.WriteSnapshot entry = [] := if_neg own
    rw [none_, List.take_nil]
    exact ⟨consistent, .inl rfl⟩
  -- The file stands once it has been saved, and none of the others goes.
  have saved : ∀ uuid, uuid ∈ store.files ∨ uuid = entry.uuid →
      uuid ∈ (store.apply (.saveFile entry.uuid)).files := by
    intro uuid known
    simp only [apply]
    split
    · rename_i there
      exact known.elim id fun same => same ▸ there
    · exact List.mem_append.mpr (known.imp_right List.mem_singleton.mpr)
  have lastWritten : WriteLastUuid (some entry.uuid) = [.syncLastUuid (some entry.uuid)] := by
    simp [WriteLastUuid, Option.filter, filled_of_looksLikeUuid own]
  -- A crash behind the file: the index has not moved, so its files are still there.
  have savedOnly : (store.apply (.saveFile entry.uuid)).Consistent :=
    consistent_of_read rfl consistent.distinct (fun uuid member =>
      saved uuid (.inl (consistent.files uuid member)))
      consistent.last consistent.few
  by_cases fast : store.inPlaceFastPath entry = true
  · -- The index stays as it is; the entry leads it, so the last session may be set to it.
    have leads : entry.uuid ∈ store.uuids := by
      cases first : store.Read.head? with
      | none => simp [inPlaceFastPath, first] at fast
      | some held =>
        have same : held.uuid = entry.uuid := by simp [inPlaceFastPath, first] at fast; exact fast.1
        exact List.mem_map.mpr ⟨held, List.mem_of_head? first, same⟩
    have pointed : ((store.apply (.saveFile entry.uuid)).apply
        (.syncLastUuid (some entry.uuid))).Consistent :=
      consistent_of_read rfl consistent.distinct savedOnly.files
        (fun uuid same => Option.some.inj same ▸ leads) consistent.few
    -- The last session is written only if it points elsewhere.
    by_cases drifted : store.lastSessionUuid = some entry.uuid
    · have form : store.WriteSnapshot entry = [.saveFile entry.uuid] := by
        rw [WriteSnapshot, if_pos own, if_pos fast, if_pos drifted]
      rw [form]
      rcases stop with _ | stop
      · exact ⟨consistent, .inl rfl⟩
      · exact ⟨by simpa using savedOnly, .inl (by simp; rfl)⟩
    · have form : store.WriteSnapshot entry = [.saveFile entry.uuid,
          .syncLastUuid (some entry.uuid)] := by
        rw [WriteSnapshot, if_pos own, if_pos fast, if_neg drifted, lastWritten]
      rw [form]
      rcases stop with _ | _ | stop
      · exact ⟨consistent, .inl rfl⟩
      · exact ⟨savedOnly, .inl rfl⟩
      · exact ⟨by simpa using pointed, .inl (by simp; rfl)⟩
  · -- Otherwise the entry moves to the front, and the index is written: slots, their number, the
    -- last session, and then the evicted files go.
    obtain ⟨size, stays⟩ := meets own (by simpa using fast)
    have form : store.WriteSnapshot entry = .saveFile entry.uuid :: .syncEntries
      (store.keptEntries entry) ::
        .syncSize (store.keptEntries entry).length :: .syncLastUuid (some entry.uuid) ::
          RemoveUuidFiles (store.evictedUuids entry) := by
      rw [WriteSnapshot, if_pos own, if_neg fast, lastWritten]
      rfl
    rw [form]
    have writable := consistent.writable_kept own
    -- The kept entries name the new file or files that were there before.
    have filed : ∀ uuid ∈ (store.keptEntries entry).map (·.uuid),
        uuid ∈ (store.apply (.saveFile entry.uuid)).files := by
      intro uuid member
      have listed := (store.kept_evicted entry).mpr (.inl member)
      rw [map_prepended] at listed
      refine saved uuid ((List.mem_cons.mp listed).symm.imp_left fun old => ?_)
      exact consistent.files uuid (List.mem_of_mem_erase old)
    -- Between the slots and the last session, that one must not be among the evicted.
    have lastKept : (stop = 2 ∨ stop = 3) → ∀ uuid, store.lastSessionUuid = some uuid →
        uuid ∈ (store.keptEntries entry).map (·.uuid) := fun weak uuid same =>
      ((store.kept_evicted entry).mp
        (mem_prepended entry (consistent.last uuid same))).resolve_right
        (stays weak uuid same)
    have whole : ∀ {next : RecentsStore}, next.slots = store.keptEntries entry →
        next.size = (store.keptEntries entry).length → next.Read = store.keptEntries entry :=
          fun slots size =>
      writable.read slots size
    -- With every change made, the index holds the kept entries.
    have done : ((RecentsChange.saveFile entry.uuid :: .syncEntries (store.keptEntries entry) ::
        .syncSize (store.keptEntries entry).length :: .syncLastUuid (some entry.uuid) ::
          RemoveUuidFiles (store.evictedUuids entry)).foldl apply store).Read =
            store.keptEntries entry := by
      simp only [List.foldl_cons, foldl_removeFiles]
      exact whole rfl rfl
    rw [done]
    -- The cases are the places at which the writing stops.
    rcases stop with _ | _ | _ | _ | stop
    · exact ⟨consistent, .inl rfl⟩
    · exact ⟨savedOnly, .inl rfl⟩
    · -- The slots are new and their number is old.
      simp only [List.take_succ_cons, List.take_zero, List.foldl_cons, List.foldl_nil]
      rcases size rfl with empty | fits
      · have before := read_of_size_zero empty
        have after : ((store.apply (.saveFile entry.uuid)).apply
            (.syncEntries (store.keptEntries entry))).Read = [] :=
          read_of_size_zero empty
        refine ⟨consistent_of_read after (by simp) (by simp) (fun uuid same => ?_) (by simp),
          .inl (after.trans before.symm)⟩
        have there := consistent.last uuid same
        rw [uuids, before] at there
        exact there
      · have after : ((store.apply (.saveFile entry.uuid)).apply
          (.syncEntries (store.keptEntries entry))).Read =
            store.keptEntries entry := read_of_valid writable.valid rfl fits
        exact ⟨consistent_of_read after writable.distinct filed (lastKept (.inl rfl)) writable.few,
          .inr after⟩
    · -- Slots and number are both written; only the last session is old.
      simp only [List.take_succ_cons, List.take_zero, List.foldl_cons, List.foldl_nil]
      refine ⟨consistent_of_read (whole rfl rfl) writable.distinct filed (lastKept (.inr rfl))
        writable.few, .inr ?_⟩
      exact whole rfl rfl
    · -- Everything is written, and some of the evicted files may be gone already.
      simp only [List.take_succ_cons, List.foldl_cons, take_removeFiles, foldl_removeFiles]
      refine ⟨consistent_of_read (whole rfl rfl) writable.distinct (fun uuid member =>
        ?_) (fun uuid same => ?_)
        writable.few, .inr (whole rfl rfl)⟩
      · refine List.mem_filter.mpr ⟨filed uuid member, ?_⟩
        have apart := consistent.disjoint_evicted member
        simpa using fun gone => apart (List.mem_of_mem_take gone)
      · exact Option.some.inj same ▸ store.mem_keptEntries entry

/-- The index with one of its entries renewed in front is as long as it was. -/
theorem length_prepended {entry : RecentSessionEntry} (there : entry.uuid ∈ store.uuids) :
    (store.prepended entry).length = store.Read.length := by
  have sizes := congrArg List.length (store.map_prepended entry)
  have filled := List.length_pos_of_mem there
  rw [List.length_map, List.length_cons, List.length_erase_of_mem there] at sizes
  have all : store.uuids.length = store.Read.length := List.length_map ..
  omega

/-- The index with one of its entries renewed in front may be written. -/
theorem Consistent.writable_touched (consistent : store.Consistent) {held : RecentSessionEntry}
    (own : LooksLikeUuid held.uuid = true) (there : held.uuid ∈ store.uuids) (now : Int) :
    Writable (store.prepended { held with timestampMsEpoch := now }) :=
  ⟨valid_prepended own, consistent.nodup_prepended _,
    (length_prepended there).symm ▸ consistent.few⟩

/-- A touch, interrupted anywhere. -/
theorem Consistent.touch (consistent : store.Consistent) (uuid : Utf16) (now : Int) (stop : Nat) :
    store.Leaves (.touch uuid now) (store.interrupted (.touch uuid now) stop) := by
  simp only [Leaves, interrupted, completed, steps]
  by_cases own : LooksLikeUuid uuid = true
  swap
  · have none_ : store.Touch uuid now = [] := if_neg own
    rw [none_, List.take_nil]
    exact ⟨consistent, .inl rfl⟩
  cases found : store.Read.find? (·.uuid = uuid) with
  | none =>
    have none_ : store.Touch uuid now = [] := by rw [Touch, if_pos own, found, Option.elim_none]
    rw [none_, List.take_nil]
    exact ⟨consistent, .inl rfl⟩
  | some held =>
    have same : held.uuid = uuid := by simpa using List.find?_some found
    subst same
    have there : held.uuid ∈ store.uuids :=
      List.mem_map.mpr ⟨held, List.mem_of_find?_eq_some found, rfl⟩
    have writable := consistent.writable_touched own there now
    -- The entry moves to the front, so the list is as long as it was.
    have fits : (store.prepended { held with timestampMsEpoch := now }).length ≤
        min store.size CORRUPT_PROFILE_CAP := by
      rw [@length_prepended _ store { held with timestampMsEpoch := now } there]
      exact store.length_read_le
    have sessions := store.map_prepended { held with timestampMsEpoch := now }
    generalize moved : store.prepended { held with timestampMsEpoch := now } =
      entries at writable fits sessions
    have known : ∀ uuid, uuid ∈ entries.map (·.uuid) ↔ uuid ∈ store.uuids := by
      intro uuid
      rw [sessions, List.mem_cons]
      constructor
      · rintro (rfl | old)
        · exact there
        · exact List.mem_of_mem_erase old
      · intro member
        by_cases same : uuid = held.uuid
        · exact .inl same
        · exact .inr ((List.mem_erase_of_ne same).mpr member)
    have filed : ∀ uuid ∈ entries.map (·.uuid), uuid ∈ store.files := fun uuid member =>
      consistent.files uuid ((known uuid).mp member)
    have pointed : ∀ uuid, store.lastSessionUuid = some uuid → uuid ∈ entries.map (·.uuid) :=
      fun uuid same =>
      (known uuid).mpr (consistent.last uuid same)
    have torn : (store.apply (.syncEntries entries)).Read = entries :=
      read_of_valid writable.valid rfl fits
    have whole : ∀ {next : RecentsStore}, next.slots = entries → next.size = entries.length →
        next.Read = entries :=
      fun slots size => writable.read slots size
    by_cases current : store.lastSessionUuid = some held.uuid
    · have form : store.Touch held.uuid now = [.syncEntries entries, .syncSize entries.length] := by
        rw [Touch, if_pos own, found, Option.elim_some, if_pos current, moved]
        rfl
      rw [form]
      rcases stop with _ | _ | stop
      · exact ⟨consistent, .inl rfl⟩
      · exact ⟨consistent_of_read torn writable.distinct filed pointed writable.few,
          .inr (torn.trans (whole rfl rfl).symm)⟩
      · simp only [List.take_succ_cons, List.take_nil, List.foldl_cons, List.foldl_nil]
        exact ⟨consistent_of_read (whole rfl rfl) writable.distinct filed pointed writable.few,
          .inr trivial⟩
    · have form : store.Touch held.uuid now =
          [.syncEntries entries, .syncSize entries.length, .syncLastUuid (some held.uuid)] := by
        rw [Touch, if_pos own, found, Option.elim_some, if_neg current, moved]
        simp [Write, WriteLastUuid, Option.filter, filled_of_looksLikeUuid own]
      rw [form]
      rcases stop with _ | _ | _ | stop
      · exact ⟨consistent, .inl rfl⟩
      · exact ⟨consistent_of_read torn writable.distinct filed pointed writable.few,
          .inr (torn.trans (whole rfl rfl).symm)⟩
      · exact ⟨consistent_of_read (whole rfl rfl) writable.distinct filed pointed writable.few,
          .inr ((whole rfl rfl).trans (whole rfl rfl).symm)⟩
      · simp only [List.take_succ_cons, List.take_nil, List.foldl_cons, List.foldl_nil]
        refine ⟨consistent_of_read (whole rfl rfl) writable.distinct filed (fun uuid same =>
          ?_) writable.few,
          .inr trivial⟩
        exact Option.some.inj same ▸ (known _).mpr there

/-- Files that are removed behind a written list are not those of the list. -/
theorem Writable.unlinked {entries : List RecentSessionEntry} (writable : Writable entries)
    {next : RecentsStore} (slots : next.slots = entries) (size : next.size = entries.length)
    (filed : ∀ uuid ∈ entries.map (·.uuid), uuid ∈ next.files)
    (last : ∀ uuid, next.lastSessionUuid = some uuid → uuid ∈ entries.map (·.uuid))
    {gone : List Utf16}
    (apart : ∀ uuid ∈ gone, uuid ∉ entries.map (·.uuid)) :
    ((RemoveUuidFiles gone).foldl apply next).Consistent ∧
      ((RemoveUuidFiles gone).foldl apply next).Read = entries := by
  rw [foldl_removeFiles]
  have read : ({ next with files := next.files.filter (· ∉ gone) } : RecentsStore).Read = entries :=
    writable.read slots size
  refine ⟨consistent_of_read read writable.distinct (fun uuid member => ?_) last writable.few, read⟩
  exact List.mem_filter.mpr ⟨filed uuid member,
    by simpa using fun removed => apart uuid removed member⟩

/-- A removal, interrupted anywhere but where the last session is the removed one and has not been
replaced. -/
theorem Consistent.remove (consistent : store.Consistent) (uuid : Utf16) {stop : Nat}
    (meets : store.Meets (.remove uuid, stop)) :
    store.Leaves (.remove uuid) (store.interrupted (.remove uuid) stop) := by
  simp only [Meets] at meets
  simp only [Leaves, interrupted, completed, steps]
  by_cases known : LooksLikeUuid uuid = true ∧ uuid ∈ store.uuids
  swap
  · -- An unknown session is not removed, and nothing is written.
    have none_ : store.Remove uuid = [] := if_neg known
    rw [none_, List.take_nil]
    exact ⟨consistent, .inl rfl⟩
  -- What stays is the index without this one entry.
  generalize rest : without store.Read uuid = entries
  have sessions : entries.map (·.uuid) = store.uuids.erase uuid :=
    rest ▸ map_without store.Read uuid
  have writable : Writable entries := consistent.writable.sublist (rest ▸ List.eraseP_sublist)
  have fits : entries.length ≤ min store.size CORRUPT_PROFILE_CAP := by
    refine le_trans ?_ store.length_read_le
    exact rest ▸ List.eraseP_sublist.length_le
  -- The files of what stays were there before, and the one that goes is not among them.
  have filed : ∀ other ∈ entries.map (·.uuid), other ∈ store.files := fun other member =>
    consistent.files other (List.mem_of_mem_erase (sessions ▸ member))
  have absent : ∀ other ∈ [uuid], other ∉ entries.map (·.uuid) := by
    intro other member
    rw [List.mem_singleton.mp member, sessions]
    exact consistent.distinct.not_mem_erase
  -- A last session that is not the removed one stays in the index.
  have pointed : store.lastSessionUuid ≠ some uuid → ∀ other, store.lastSessionUuid = some other →
      other ∈ entries.map (·.uuid) := by
    intro differs other same
    rw [sessions]
    have others : other ≠ uuid := fun equal => differs (same.trans (congrArg some equal))
    exact (List.mem_erase_of_ne others).mpr (consistent.last other same)
  -- With the old number the new slots are read whole, since they are fewer.
  have torn : (store.apply (.syncEntries entries)).Read = entries :=
    read_of_valid writable.valid rfl fits
  have whole : ∀ {next : RecentsStore}, next.slots = entries → next.size = entries.length →
      next.Read = entries :=
    fun slots size => writable.read slots size
  by_cases current : store.lastSessionUuid = some uuid
  · -- The last session is the removed one: the newest survivor takes its place.
    have form : store.Remove uuid = [.syncEntries entries, .syncSize entries.length,
        .syncLastUuid ((entries.head?.map (·.uuid)).filter (· ≠ []))] ++
          RemoveUuidFiles [uuid] := by
      rw [Remove, if_pos known, if_pos current, rest]
      rfl
    generalize newest : (entries.head?.map (·.uuid)).filter (· ≠ []) = next at form
    have promoted : ∀ other, next = some other → other ∈ entries.map (·.uuid) := by
      intro other same
      rw [← newest] at same
      obtain ⟨first, head, equal⟩ := Option.map_eq_some_iff.mp (Option.filter_eq_some_iff.mp same).1
      exact List.mem_map.mpr ⟨first, List.mem_of_head? head, equal⟩
    have done := @Writable.unlinked _ entries writable (((store.apply (.syncEntries entries)).apply
      (.syncSize entries.length)).apply (.syncLastUuid next)) rfl rfl filed promoted [uuid] absent
    have complete : ((store.Remove uuid).foldl apply store).Read = entries := by
      rw [form, List.foldl_append]
      exact done.2
    rw [complete, form]
    -- While the removed session is still the last one, the condition excludes a crash.
    rcases stop with _ | _ | _ | _ | stop
    · exact ⟨consistent, .inl rfl⟩
    · exact absurd current (meets (.inl rfl))
    · exact absurd current (meets (.inr rfl))
    · exact ⟨consistent_of_read (whole rfl rfl) writable.distinct filed promoted writable.few,
        .inr (whole rfl rfl)⟩
    · rw [List.take_of_length_le (by simp [RemoveUuidFiles]), List.foldl_append]
      exact ⟨done.1, .inr done.2⟩
  · -- The last session is another one, so no crash leaves it behind.
    have form : store.Remove uuid = [.syncEntries entries, .syncSize entries.length] ++
        RemoveUuidFiles [uuid] := by
      rw [Remove, if_pos known, if_neg current, rest, List.append_nil]
      rfl
    have done := @Writable.unlinked _ entries writable ((store.apply (.syncEntries entries)).apply
      (.syncSize entries.length)) rfl rfl filed (pointed current) [uuid] absent
    have complete : ((store.Remove uuid).foldl apply store).Read = entries := by
      rw [form, List.foldl_append]
      exact done.2
    rw [complete, form]
    rcases stop with _ | _ | _ | stop
    · exact ⟨consistent, .inl rfl⟩
    · exact ⟨consistent_of_read torn writable.distinct filed (pointed current) writable.few,
        .inr torn⟩
    · exact ⟨consistent_of_read (whole rfl rfl) writable.distinct filed
        (pointed current) writable.few,
        .inr (whole rfl rfl)⟩
    · rw [List.take_of_length_le (by simp [RemoveUuidFiles]), List.foldl_append]
      exact ⟨done.1, .inr done.2⟩

/-- A clearing, interrupted anywhere but before a last session is dropped. -/
theorem Consistent.clear (consistent : store.Consistent) {stop : Nat}
    (meets : store.Meets (.clear, stop)) :
    store.Leaves .clear (store.interrupted .clear stop) := by
  simp only [Meets] at meets
  simp only [Leaves, interrupted, completed, steps]
  have form : store.Clear = .syncEntries [] :: .syncSize 0 :: .syncLastUuid none ::
      RemoveUuidFiles store.uuids := rfl
  have writable : Writable [] := ⟨by simp, by simp, by simp⟩
  -- With the index empty and no last session, files may go in any number.
  have dropped : ∀ gone, ((RemoveUuidFiles gone).foldl apply (((store.apply (.syncEntries [])).apply
      (.syncSize 0)).apply (.syncLastUuid none))).Consistent ∧ ((RemoveUuidFiles gone).foldl apply
        (((store.apply (.syncEntries [])).apply (.syncSize 0)).apply (.syncLastUuid none))).Read =
          [] := fun gone =>
    @Writable.unlinked _ [] writable (((store.apply (.syncEntries [])).apply (.syncSize 0)).apply
      (.syncLastUuid none))
      rfl rfl (by simp) (fun uuid same => by cases same) gone (by simp)
  have complete : (store.Clear.foldl apply store).Read = [] := (dropped store.uuids).2
  rw [complete, form]
  -- Slots that are gone are read as none, whatever their number says.
  have nothing : ∀ {next : RecentsStore}, next.slots = [] → next.Read = [] := fun slots => by
    simp [Read, slots]
  rcases stop with _ | _ | _ | stop
  · exact ⟨consistent, .inl rfl⟩
  · -- The last session is dropped after the index, so by the condition there is none.
    have none_ := meets (.inl rfl)
    refine ⟨consistent_of_read (nothing rfl) (by simp) (by simp) (fun uuid same => ?_) (by simp),
      .inr (nothing rfl)⟩
    exact absurd (none_.symm.trans same) (by simp)
  · have none_ := meets (.inr rfl)
    refine ⟨consistent_of_read (nothing rfl) (by simp) (by simp) (fun uuid same => ?_) (by simp),
      .inr (nothing rfl)⟩
    exact absurd (none_.symm.trans same) (by simp)
  · -- Only files are left to remove.
    simp only [List.take_succ_cons, List.foldl_cons, take_removeFiles]
    exact ⟨(dropped _).1, .inr (dropped _).2⟩

/-- The orphans of a consistent index are not sessions of it. -/
theorem Consistent.cleanup (consistent : store.Consistent) (stop : Nat) :
    (store.interrupted .cleanupOrphanFiles stop).Consistent ∧
      (store.interrupted .cleanupOrphanFiles stop).Read = store.Read := by
  simp only [interrupted, steps, CleanupOrphanFiles, take_removeFiles, foldl_removeFiles]
  refine ⟨consistent_of_read rfl consistent.distinct (fun uuid member =>
    ?_) consistent.last consistent.few, rfl⟩
  -- A file of the index is no orphan, so the sweep leaves it.
  refine List.mem_filter.mpr ⟨consistent.files uuid member, ?_⟩
  have known : uuid ∈ store.uuids := member
  simp only [decide_eq_true_eq]
  intro gone
  have orphan := List.of_mem_filter (List.mem_of_mem_take (List.mem_of_mem_take gone))
  simp [known] at orphan

/-- An interrupted call that meets its condition leaves a consistent store with the old or
the new index. -/
theorem Consistent.leaves (consistent : store.Consistent) {event : RecentsCall × Nat}
    (meets : store.Meets event) :
    store.Leaves event.1 (store.interrupted event.1 event.2) := by
  obtain ⟨call, stop⟩ := event
  cases call with
  | writeSnapshot reuseUuid created metadata =>
    exact consistent.writeSnapshot reuseUuid created metadata meets
  | touch uuid now => exact consistent.touch uuid now stop
  | remove uuid => exact consistent.remove uuid meets
  | clear => exact consistent.clear meets
  | cleanupOrphanFiles => exact ⟨(consistent.cleanup stop).1, .inl (consistent.cleanup stop).2⟩
  -- The limit is read again with the next writing, and no entry goes now.
  | setMaxEntries maxEntries =>
    rcases stop with _ | stop
    · exact ⟨consistent, .inl rfl⟩
    · have set : ∀ value, (store.apply (.syncMaxEntries value)).Consistent := fun value =>
        consistent_of_read rfl consistent.distinct consistent.files consistent.last consistent.few
      simp only [Leaves, interrupted, steps, List.take_succ_cons, List.take_nil, List.foldl_cons,
        List.foldl_nil]
      exact ⟨set _, .inl rfl⟩

/-- What is written is read, whatever steps follow that are not of the index. -/
theorem Writable.read_foldl {entries : List RecentSessionEntry} (writable : Writable entries)
    {changes : List RecentsChange} (keeps : ∀ change ∈ changes, change.KeepsIndex)
    (store : RecentsStore) :
    ((Write entries ++ changes).foldl apply store).Read = entries := by
  rw [List.foldl_append]
  obtain ⟨slots, size⟩ := read_foldl_keeps keeps ((Write entries).foldl apply store)
  exact writable.read slots size

/-- A complete call keeps the sessions that it does not drop. -/
theorem Consistent.completed_keeps (consistent : store.Consistent) (call : RecentsCall)
    {uuid : Utf16}
    (member : uuid ∈ store.uuids) (stays : uuid ∉ store.drops call) :
    uuid ∈ (store.completed call).uuids := by
  -- Changes that leave the index alone keep the session.
  have same : ∀ {changes : List RecentsChange}, (∀ change ∈ changes, change.KeepsIndex) →
      uuid ∈ (changes.foldl apply store).uuids := by
    intro changes keeps
    obtain ⟨slots, size⟩ := read_foldl_keeps keeps store
    have read : (changes.foldl apply store).Read = store.Read := by rw [Read, Read, slots, size]
    rw [uuids, read]
    exact member
  cases call with
  -- Everything but the first changes of a writing leaves the index alone.
  | writeSnapshot reuseUuid created metadata =>
    simp only [completed, steps, drops] at stays ⊢
    generalize snapshotEntry reuseUuid created metadata = entry at stays ⊢
    rw [WriteSnapshot]
    by_cases own : LooksLikeUuid entry.uuid = true
    swap
    · rw [if_neg own]
      exact member
    rw [if_pos own]
    -- The fast path changes no slot at all.
    by_cases fast : store.inPlaceFastPath entry = true
    · rw [if_pos fast]
      refine same fun change listed => ?_
      rcases List.mem_cons.mp listed with rfl | later
      · trivial
      · split at later
        · cases later
        · rw [List.mem_singleton.mp later]
          trivial
    · -- The kept entries hold every session of the index that is not evicted.
      rw [if_neg fast] at stays ⊢
      rw [List.foldl_cons, List.append_assoc, uuids]
      have rest : ∀ change ∈ WriteLastUuid (some entry.uuid) ++ RemoveUuidFiles
        (store.evictedUuids entry),
          change.KeepsIndex := by
        intro change listed
        rcases List.mem_append.mp listed with last | gone
        · rw [List.mem_singleton.mp last]
          trivial
        · exact keepsIndex_removeFiles _ change gone
      rw [(consistent.writable_kept own).read_foldl rest]
      exact ((store.kept_evicted entry).mp (mem_prepended entry member)).resolve_right stays
  -- A touch moves the session to the front.
  | touch touched now =>
    simp only [completed, steps, Touch]
    split
    swap
    · exact member
    rename_i own
    cases found : store.Read.find? (·.uuid = touched) with
    | none => exact member
    | some held =>
      have same : held.uuid = touched := by simpa using List.find?_some found
      subst same
      have there : held.uuid ∈ store.uuids :=
        List.mem_map.mpr ⟨held, List.mem_of_find?_eq_some found, rfl⟩
      -- The slots are written first; the last session is not part of the index.
      have rest : ∀ change ∈ (if store.lastSessionUuid = some held.uuid then [] else WriteLastUuid
        (some held.uuid)),
          change.KeepsIndex := by
        intro change listed
        split at listed
        · cases listed
        · rw [List.mem_singleton.mp listed]
          trivial
      rw [Option.elim_some, uuids, (consistent.writable_touched own there now).read_foldl rest]
      exact mem_prepended _ member
  -- A removal takes out another session than the one asked for.
  | remove removed =>
    simp only [completed, steps, Remove]
    split
    swap
    · exact member
    have differs : uuid ≠ removed := fun same => stays (List.mem_singleton.mpr same)
    have rest : ∀ change ∈ (if store.lastSessionUuid = some removed then
        WriteLastUuid ((without store.Read removed).head?.map (·.uuid))
          else []) ++ RemoveUuidFiles [removed],
        change.KeepsIndex := by
      intro change listed
      rcases List.mem_append.mp listed with last | gone
      · split at last
        · rw [List.mem_singleton.mp last]
          trivial
        · cases last
      · exact keepsIndex_removeFiles _ change gone
    have writable : Writable (without store.Read removed) :=
      consistent.writable.sublist List.eraseP_sublist
    rw [List.append_assoc, uuids, writable.read_foldl rest, map_without]
    exact (List.mem_erase_of_ne differs).mpr member
  | clear => exact absurd member stays
  | cleanupOrphanFiles => exact same (keepsIndex_removeFiles _)
  | setMaxEntries maxEntries => exact member

end Calls

/-- An event that meets its condition behaves, and leaves a consistent store. -/
theorem Consistent.behaves (consistent : store.Consistent) {event : RecentsCall × Nat}
    (meets : store.Meets event) :
    store.Behaves event ∧ (store.interrupted event.1 event.2).Consistent := by
  obtain ⟨next, index⟩ := consistent.leaves meets
  refine ⟨⟨next.distinct, next.files, next.last, index, fun uuid member stays stop => ?_⟩, next⟩
  -- The session is still one of the index, and the sweep leaves those alone.
  have kept : uuid ∈ (store.interrupted event.1 event.2).uuids := by
    rcases index with old | new
    · rw [uuids, old]
      exact member
    · rw [uuids, new]
      exact consistent.completed_keeps event.1 member stays
  obtain ⟨swept, same⟩ := next.cleanup stop
  have known : uuid ∈ ((store.interrupted event.1 event.2).interrupted .cleanupOrphanFiles
      stop).uuids := by
    rw [uuids, same]
    exact kept
  exact swept.files uuid known

/-- The events as a step function. -/
def step (store : RecentsStore) (event : RecentsCall × Nat) : Option RecentsStore :=
  some (store.interrupted event.1 event.2)

/-- The store of a new profile, with whatever files and setting there are. -/
def fresh (files : List Utf16) (maxEntries : Option Int) : RecentsStore :=
  ⟨[], 0, none, files, maxEntries⟩

/-- In every run of calls, each interrupted anywhere or not at all, that meets the condition at each
of its events, every event behaves. -/
theorem run_behaves {files : List Utf16} {maxEntries : Option Int}
    {events : List (RecentsCall × Nat)}
    (meets : CleanRun step Meets (fresh files maxEntries) events) :
    CleanRun step Behaves (fresh files maxEntries) events := by
  -- A fresh profile has an empty index.
  have start : (fresh files maxEntries).Consistent :=
    @consistent_of_read _ (fresh files maxEntries) [] rfl (by simp) (by simp) (fun uuid same =>
      by cases same) (by simp)
  have kept : ∀ (store : RecentsStore) (event : RecentsCall × Nat) (next : RecentsStore),
    store.Consistent →
      store.Meets event → store.step event = some next → next.Consistent := by
    intro store event next consistent meets done
    obtain rfl := Option.some.inj done
    exact (consistent.behaves meets).2
  exact meets.imp kept (fun store event consistent meets => (consistent.behaves meets).1) start

end Reading

section Examples

attribute [local instance] printedUuids

/-- An entry without data. -/
def blankEntry : RecentSessionEntry := ⟨[], [], [], 0, 0⟩

/-- A session is written, and the next one is interrupted before the number of slots is
persisted. -/
def tornEvents : List (RecentsCall × Nat) :=
  [(.writeSnapshot [] (uuidOf '1') blankEntry, 9), (.writeSnapshot [] (uuidOf '2') blankEntry, 2)]

/-- Sessions that are written, touched and removed without an interruption behave. -/
theorem calmEvents_behave : CleanRun step Behaves (fresh [] none)
    [(.writeSnapshot [] (uuidOf '1') blankEntry, 9), (.writeSnapshot [] (uuidOf '2') blankEntry, 9),
      (.touch (uuidOf '1') 5, 9), (.remove (uuidOf '1'), 9), (.cleanupOrphanFiles, 9)] := by
  -- No call is stopped at one of its critical points.
  have far : ¬((9 : Nat) = 2) ∧ ¬((9 : Nat) = 2 ∨ (9 : Nat) = 3) ∧
      ¬((9 : Nat) = 1 ∨ (9 : Nat) = 2) := by decide
  refine run_behaves ⟨?_, fun _ _ =>
    ⟨?_, fun _ _ => ⟨trivial, fun _ _ => ⟨?_, fun _ _ => ⟨trivial, fun _ _ => trivial⟩⟩⟩⟩⟩
  · exact fun _ _ => ⟨fun at_ => absurd at_ far.1, fun at_ => absurd at_ far.2.1⟩
  · exact fun _ _ => ⟨fun at_ => absurd at_ far.1, fun at_ => absurd at_ far.2.1⟩
  · exact fun at_ => absurd at_ far.2.2

/-- After the crash the index reads as neither the old nor the new one, and the sweep removes the
old session. -/
theorem tornEvents_lose :
    let before := (fresh [] none).interrupted (.writeSnapshot [] (uuidOf '1') blankEntry) 9
    let after := before.interrupted (.writeSnapshot [] (uuidOf '2') blankEntry) 2
    tornEvents.foldlM step (fresh [] none) = some after ∧ before.uuids = [uuidOf '1'] ∧
      after.uuids = [uuidOf '2'] ∧
      after.Read ≠ (before.completed (.writeSnapshot [] (uuidOf '2') blankEntry)).Read ∧
      uuidOf '1' ∈ before.files ∧ uuidOf '1' ∉ (after.interrupted .cleanupOrphanFiles 9).files ∧
      ¬CleanRun step Behaves (fresh [] none) tornEvents := by
  intro before after
  have old : before.uuids = [uuidOf '1'] := by decide +kernel
  have torn : after.uuids = [uuidOf '2'] := by decide +kernel
  -- A whole writing would have kept the old entry behind the new one.
  have whole : (before.completed (.writeSnapshot [] (uuidOf '2') blankEntry)).uuids = [uuidOf '2',
      uuidOf '1'] := by
    decide +kernel
  have differs : after.Read ≠
      (before.completed (.writeSnapshot [] (uuidOf '2') blankEntry)).Read := by
    intro same
    have lists := congrArg (List.map (·.uuid)) same
    exact absurd (torn.symm.trans (lists.trans whole)) (by decide)
  refine ⟨rfl, old, torn, differs, by decide +kernel, by decide +kernel, fun behaves => ?_⟩
  -- The torn list is neither the old one nor the new one.
  rcases (behaves.2 before rfl).1.index with same | same
  · have lists := congrArg (List.map (·.uuid)) same
    exact absurd (torn.symm.trans (lists.trans old)) (by decide +kernel)
  · exact differs same

end Examples

end RecentsStore

end Loglib
