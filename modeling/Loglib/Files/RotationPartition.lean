import Loglib.Files.RotationSiblings

/-! Splitting selected paths into rotation series and the rest. -/

namespace Loglib

/-- The primary that owns an input, with its key: the derived one where it exists or is selected,
and the input itself otherwise. -/
def ownerOf (fs : FileSystem) (inputKeys : List FilePath) (path : FilePath) : FilePath × FilePath :=
  match deriveRotationPrimary path with
  | some derived =>
    let derivedKey := canonicalKeyForPath fs derived
    if fs.exists_ derived || derivedKey ∈ inputKeys then (derived, derivedKey)
    else (path, canonicalKeyForPath fs path)
  | none => (path, canonicalKeyForPath fs path)

/-- `GroupEntry`. -/
structure GroupEntry where
  primary : FilePath
  primaryKey : FilePath
  firstOrdinal : Nat
  inputMemberCount : Nat
deriving DecidableEq, Repr

/-- One input more. The groups stand in the order in which they were opened, for the hash map that
holds them is only read in the order of the ordinals. -/
def noteMember (groups : List GroupEntry) (owner : FilePath × FilePath) (ordinal : Nat) :
    List GroupEntry :=
  if owner.2 ∈ groups.map (·.primaryKey) then
    groups.map fun entry =>
      if entry.primaryKey = owner.2 then
        { entry with
          firstOrdinal := min ordinal entry.firstOrdinal
          inputMemberCount := entry.inputMemberCount + 1 }
      else entry
  else groups ++ [⟨owner.1, owner.2, ordinal, 1⟩]

/-- The groups of all inputs. -/
def groupInputs (owners : List (FilePath × FilePath)) : List GroupEntry :=
  owners.zipIdx.foldl (fun groups owned => noteMember groups owned.1 owned.2) []

/-- `insert(end - 1, …)`, or at the end where there is nothing. -/
def insertBeforeLast (files : List RotatedFile) (extra : RotatedFile) : List RotatedFile :=
  files.dropLast ++ [extra] ++ files.getLast?.toList

/-- An input of the group that the series does not have yet goes in front of the primary. -/
def mergeListed (fs : FileSystem) (owner : FilePath → FilePath × FilePath) (primaryKey : FilePath)
    (files : List RotatedFile) (path : FilePath) : List RotatedFile :=
  if (owner path).2 ≠ primaryKey then files
  else
    let key := canonicalKeyForPath fs path
    -- The set of keys seen is that of the files of the series so far.
    if key ∈ files.map (·.canonicalKey) then files
      else insertBeforeLast files ⟨path, key, .callerListed⟩

/-- The series of a group, unless the group is one input without siblings. -/
def entrySeries (fs : FileSystem) (order : RankSort) (paths : List FilePath)
    (owner : FilePath → FilePath × FilePath) (entry : GroupEntry) : Option RotationSeries :=
  let series := enumerateRotatedSiblings fs order entry.primary
  if entry.inputMemberCount ≤ 1 ∧ series.files.length ≤ 1 then none
  else some { series with
    files := paths.foldl (mergeListed fs owner entry.primaryKey) series.files }

/-- `PartitionedSelection`. -/
structure PartitionedSelection where
  series : List RotationSeries
  residual : List FilePath
deriving DecidableEq, Repr

/-- An input that no series has taken and that is not in the residual list yet goes there. -/
def noteResidual (fs : FileSystem) (state : List FilePath × List FilePath) (path : FilePath) :
    List FilePath × List FilePath :=
  let key := canonicalKeyForPath fs path
  if key ∈ state.2 then state else (state.1 ++ [path], key :: state.2)

/-- The keys of the files of some series. -/
def seriesKeys (series : List RotationSeries) : List FilePath :=
  series.flatMap fun own => own.files.map (·.canonicalKey)

/-- `PartitionAsRotationSeries`. -/
def partitionAsRotationSeries (fs : FileSystem) (order : RankSort) (paths : List FilePath) :
    PartitionedSelection :=
  if paths = [] then ⟨[], []⟩
  else
    let inputKeys := paths.map (canonicalKeyForPath fs)
    let owner := ownerOf fs inputKeys
    let ordered := (groupInputs (paths.map owner)).insertionSort fun a b =>
      a.firstOrdinal ≤ b.firstOrdinal
    let series := ordered.filterMap (entrySeries fs order paths owner)
    let emittedInputKeys := (seriesKeys series).filter (· ∈ inputKeys)
    ⟨series, (paths.foldl (noteResidual fs) ([], emittedInputKeys)).1⟩

/-- The keys of everything in a selection. -/
def PartitionedSelection.keys (fs : FileSystem) (selection : PartitionedSelection) :
    List FilePath :=
  seriesKeys selection.series ++ selection.residual.map (canonicalKeyForPath fs)

/-- A series lists what the scan accepted for its primary in order of rank, then inputs that the
scan missed in the caller's order, and the primary last. -/
def OrderedSeries (fs : FileSystem) (paths : List FilePath) (series : RotationSeries) : Prop :=
  ∃ (scanned : List Candidate) (listed : List RotatedFile), series.files =
      scanned.map (·.rotatedFile fs) ++ listed ++ [primaryFile fs series.primary] ∧
    scanned.Perm (enumerateCandidates fs series.primary) ∧
    scanned.Pairwise (fun a b => a.sortRank ≤ b.sortRank) ∧
    (listed.map (·.path)).Sublist paths ∧ ∀ file ∈ listed, file.origin = .callerListed

/-- Every input is in exactly one place, and every series is in order. -/
structure IsPartition (fs : FileSystem) (paths : List FilePath)
    (selection : PartitionedSelection) : Prop where
  covered : ∀ path ∈ paths, canonicalKeyForPath fs path ∈ selection.keys fs
  once : (selection.keys fs).Nodup
  residual_sublist : selection.residual.Sublist paths
  ordered : ∀ series ∈ selection.series, OrderedSeries fs paths series

/-- The primaries of the inputs' families, each as the first input of the family spells it. -/
def families (owners : List (FilePath × FilePath)) : List (FilePath × FilePath) :=
  owners.foldl (fun kept owner => if owner.2 ∈ kept.map (·.2) then kept else kept ++ [owner]) []

/-- More than the primary alone: a second input of the family, or a sibling on disk. -/
def IsFamily (fs : FileSystem) (owners : List (FilePath × FilePath))
    (primary : FilePath × FilePath) : Prop :=
  1 < owners.countP (fun owner => owner.2 = primary.2) ∨ enumerateCandidates fs primary.1 ≠ []

/-- What a family claims: its primary, the siblings that are accepted for it, and its inputs. -/
def Claims (fs : FileSystem) (paths : List FilePath) (owner : FilePath → FilePath × FilePath)
    (primary : FilePath × FilePath) (key : FilePath) : Prop :=
  key = primary.2 ∨ (∃ candidate ∈ enumerateCandidates fs primary.1,
    canonicalKeyForPath fs candidate.path = key) ∨
    ∃ path ∈ paths, (owner path).2 = primary.2 ∧ canonicalKeyForPath fs path = key

/-- No file is claimed by two of the families that make a series. -/
def FamiliesApart (fs : FileSystem) (paths : List FilePath) : Prop :=
  let owner := ownerOf fs (paths.map (canonicalKeyForPath fs))
  (families (paths.map owner)).Pairwise fun first second =>
    IsFamily fs (paths.map owner) first → IsFamily fs (paths.map owner) second →
      ∀ key, ¬(Claims fs paths owner first key ∧ Claims fs paths owner second key)

/-- One input more opens a family or joins one. -/
theorem families_append_singleton (owners : List (FilePath × FilePath))
    (owner : FilePath × FilePath) :
    families (owners ++ [owner]) =
      if owner.2 ∈ (families owners).map (·.2) then families owners
        else families owners ++ [owner] := by
  rw [families, List.foldl_append]
  rfl

/-- The families are those of the inputs, each of them once. -/
theorem families_keys (owners : List (FilePath × FilePath)) :
    (∀ key, key ∈ (families owners).map (·.2) ↔ key ∈ owners.map (·.2)) ∧
      ((families owners).map (·.2)).Nodup := by
  -- The families grow with the owners, one path after another.
  induction owners using List.reverseRecOn with
  | nil => exact ⟨fun key => Iff.rfl, List.nodup_nil⟩
  | append_singleton front owner ih =>
    obtain ⟨same, nodup⟩ := ih
    rw [families_append_singleton]
    split
    · -- The family is there already.
      rename_i present
      refine ⟨fun key => ?_, nodup⟩
      rw [same, List.map_append, List.mem_append]
      refine ⟨Or.inl, ?_⟩
      rintro (inFront | new)
      · exact inFront
      · obtain rfl : key = owner.2 := by simpa using new
        exact (same _).mp present
    · -- A new family, which no earlier owner has.
      rename_i absent
      refine ⟨fun key => ?_, ?_⟩
      · rw [List.map_append, List.map_append, List.mem_append, List.mem_append, same]
      · rw [List.map_append]
        exact List.nodup_append.mpr ⟨nodup, List.nodup_singleton _, fun key inFront other new eq =>
          absent (by
          obtain rfl : other = owner.2 := by simpa using new
          exact eq ▸ inFront)⟩

/-- The groups are the families, each with the number of its inputs. -/
theorem groupInputs_spec (owners : List (FilePath × FilePath)) :
    (groupInputs owners).map (fun entry => (entry.primary, entry.primaryKey)) = families owners ∧
      ∀ entry ∈ groupInputs owners,
        entry.inputMemberCount = owners.countP fun owner => owner.2 = entry.primaryKey := by
  induction owners using List.reverseRecOn with
  | nil => exact ⟨rfl, fun _ member => nomatch member⟩
  | append_singleton front owner ih =>
    obtain ⟨same, counts⟩ := ih
    have keys : (groupInputs front).map (·.primaryKey) = (families front).map (·.2) := by
      rw [← same, List.map_map]
      rfl
    have grouped : groupInputs (front ++ [owner]) = noteMember (groupInputs front) owner
        front.length := by
      simp [groupInputs, List.zipIdx_append]
    rw [grouped, families_append_singleton, noteMember, keys]
    split
    · -- A family that is there gets one input more.
      refine ⟨?_, fun entry member => ?_⟩
      · rw [← same, List.map_map]
        refine List.map_congr_left fun entry _ => ?_
        simp only [Function.comp_apply]
        split <;> rfl
      · obtain ⟨before, inGroups, rfl⟩ := List.mem_map.mp member
        have count := counts before inGroups
        rw [List.countP_append]
        by_cases own : before.primaryKey = owner.2
        · rw [own] at count
          simp [own, count]
        · have other : ¬owner.2 = before.primaryKey := fun eq => own eq.symm
          simp [own, other, count]
    · -- A new family starts with one input.
      rename_i absent
      refine ⟨by rw [List.map_append, same]; rfl, fun entry member => ?_⟩
      rw [List.countP_append]
      rcases List.mem_append.mp member with inGroups | new
      · have other : ¬owner.2 = entry.primaryKey := by
          intro eq
          rw [← keys] at absent
          exact absent (eq ▸ List.mem_map_of_mem inGroups)
        simp [counts entry inGroups, other]
      · obtain rfl := List.mem_singleton.mp new
        have none_ : front.countP (fun other => other.2 = owner.2) = 0 := by
          rw [List.countP_eq_zero]
          intro other inFront eq
          have listed := List.mem_map_of_mem (f := Prod.snd) inFront
          rw [← (families_keys front).1, of_decide_eq_true eq] at listed
          exact absent listed
        simp [none_]

/-- One input leaves the series as it is, or joins it in front of the primary. -/
theorem mergeListed_cases (fs : FileSystem) (owner : FilePath → FilePath × FilePath)
    (primaryKey : FilePath)
    (files : List RotatedFile) (last : RotatedFile) (path : FilePath) :
    (mergeListed fs owner primaryKey (files ++ [last]) path = files ++ [last] ∧
        ((owner path).2 = primaryKey →
          canonicalKeyForPath fs path ∈ (files ++ [last]).map (·.canonicalKey))) ∨
      mergeListed fs owner primaryKey (files ++ [last]) path =
          files ++ [⟨path, canonicalKeyForPath fs path, .callerListed⟩] ++ [last] ∧
        (owner path).2 = primaryKey ∧
        canonicalKeyForPath fs path ∉ (files ++ [last]).map (·.canonicalKey) := by
  unfold mergeListed
  split
  · rename_i other
    exact .inl ⟨rfl, fun own => absurd own other⟩
  · -- A path whose family is another's, or which is in the list already, is not put in.
    rename_i own
    rw [not_not] at own
    simp only
    split
    · rename_i seen
      exact .inl ⟨rfl, fun _ => seen⟩
    · rename_i unseen
      exact .inr ⟨by simp [insertBeforeLast], own, unseen⟩

/-- Merging keeps the scanned files and the primary, and puts listed files between them. -/
theorem mergeListed_spec (fs : FileSystem) (owner : FilePath → FilePath × FilePath)
    (primaryKey : FilePath)
    (front : List RotatedFile) (last : RotatedFile) (paths : List FilePath)
    (nodup : ((front ++ [last]).map (·.canonicalKey)).Nodup) :
    ∃ listed : List RotatedFile, paths.foldl (mergeListed fs owner primaryKey) (front ++ [last]) =
        front ++ listed ++ [last] ∧
      (listed.map (·.path)).Sublist paths ∧ (∀ file ∈ listed, file.origin = .callerListed) ∧
      ((front ++ listed ++ [last]).map (·.canonicalKey)).Nodup ∧
      ∀ key, key ∈ (front ++ listed ++ [last]).map (·.canonicalKey) ↔
        key ∈ (front ++ [last]).map (·.canonicalKey) ∨
          ∃ path ∈ paths, (owner path).2 = primaryKey ∧ canonicalKeyForPath fs path = key := by
  -- The induction is on the inputs seen so far.
  induction paths using List.reverseRecOn with
  | nil => exact ⟨[], by simp, by simp, by simp, by simpa using nodup, by simp⟩
  | append_singleton before path ih =>
    obtain ⟨listed, same, sublist, origins, once, keys⟩ := ih
    rw [List.foldl_append, same]
    simp only [List.foldl_cons, List.foldl_nil]
    have split_ (key : FilePath) : (∃ other ∈ before ++ [path], (owner other).2 = primaryKey ∧
        canonicalKeyForPath fs other = key) ↔
        (∃ other ∈ before, (owner other).2 = primaryKey ∧ canonicalKeyForPath fs other = key) ∨
          (owner path).2 = primaryKey ∧ canonicalKeyForPath fs path = key := by
      simp [or_and_right, exists_or]
    rcases mergeListed_cases fs owner primaryKey (front ++ listed) last path with
      ⟨stays, seen⟩ | ⟨joins, own, unseen⟩
    · refine ⟨listed, stays, sublist.trans (List.sublist_append_left ..), origins, once,
        fun key => ?_⟩
      rw [split_, ← or_assoc, ← keys]
      refine ⟨Or.inl, ?_⟩
      rintro (there | ⟨own, rfl⟩)
      · exact there
      · exact seen own
    · let extra : RotatedFile := ⟨path, canonicalKeyForPath fs path, .callerListed⟩
      have moved : (front ++ (listed ++ [extra]) ++ [last]).Perm
          (extra :: (front ++ listed ++ [last])) := by
        rw [← List.append_assoc, List.append_assoc (front ++ listed)]
        exact List.perm_middle
      refine ⟨listed ++ [extra], by rw [joins]; simp [extra], ?_, ?_, ?_, fun key => ?_⟩
      · rw [List.map_append]
        exact sublist.append (.refl _)
      · intro file member
        rcases List.mem_append.mp member with old | new
        · exact origins file old
        · rw [List.mem_singleton.mp new]
      · rw [(moved.map _).nodup_iff, List.map_cons]
        exact List.nodup_cons.mpr ⟨unseen, once⟩
      · rw [(moved.map _).mem_iff, List.map_cons, List.mem_cons, keys, split_]
        constructor
        · rintro (rfl | old | listed_)
          · exact .inr (.inr ⟨own, rfl⟩)
          · exact .inl old
          · exact .inr (.inl listed_)
        · rintro (old | listed_ | ⟨-, rfl⟩)
          · exact .inr (.inl old)
          · exact .inr (.inr listed_)
          · exact .inl rfl

/-- A candidate is a file beside the primary with a name of its own. -/
theorem enumerateCandidates_spec (fs : FileSystem) (primary : FilePath) :
    enumerateCandidates fs primary = [] ∨ primary.filename ≠ [] ∧
      ((enumerateCandidates fs primary).map (·.path)).Sublist
        ((((fs.entries primary.parentPath).take maxEnumeratedDirectoryEntries).filter
          fun entry => entry.filename ≠ primary.filename).map fun entry =>
            primary.parentPath.child entry.filename) := by
  unfold enumerateCandidates
  simp only
  split
  · exact .inl rfl
  split
  · exact .inl rfl
  split
  · exact .inl rfl
  rename_i named _
  refine .inr ⟨named, ?_⟩
  -- Each entry gives at most one candidate, under the path of the entry.
  generalize (fs.entries primary.parentPath).take maxEnumeratedDirectoryEntries = entries
  induction entries with
  | nil => exact .slnil
  | cons entry entries ih =>
    by_cases own : entry.filename = primary.filename
    · simpa [own] using ih
    · simp only [List.filterMap_cons, own, if_false, ne_eq, not_false_eq_true, decide_true,
        List.filter_cons_of_pos,
        List.map_cons]
      split
      · rename_i rejected
        exact ih.cons _
      · rename_i candidate accepted
        split at accepted
        · rw [List.map_cons, classifySibling_path accepted]
          exact ih.cons_cons _
        · cases accepted

/-- The files of an enumeration have different keys. -/
theorem enumerateRotatedSiblings_nodup (fs : FileSystem) (order : RankSort) (primary : FilePath) :
    ((enumerateRotatedSiblings fs order primary).files.map (·.canonicalKey)).Nodup := by
  have perm := (order.perm (enumerateCandidates fs primary)).map fun candidate =>
    canonicalKeyForPath fs candidate.path
  have keys : (enumerateRotatedSiblings fs order primary).files.map (·.canonicalKey) =
      (order.sort (enumerateCandidates fs primary)).map (fun candidate =>
        canonicalKeyForPath fs candidate.path) ++
        [canonicalKeyForPath fs primary] := by
    simp [enumerateRotatedSiblings, Candidate.rotatedFile, primaryFile, Function.comp_def]
  rw [keys, (perm.append_right _).nodup_iff]
  rcases enumerateCandidates_spec fs primary with none_ | ⟨named, sublist⟩
  · rw [none_]
    exact List.nodup_singleton _
  · have paths := sublist.map (canonicalKeyForPath fs)
    rw [List.map_map, List.map_map] at paths
    have unlike : ∀ entry ∈ fs.entries primary.parentPath, ∀ other : Bytes, other ≠ entry.filename →
        canonicalKeyForPath fs (primary.parentPath.child other) ≠
          canonicalKeyForPath fs (primary.parentPath.child entry.filename) :=
      fun entry _ other differs =>
        FilePath.canonicalKeyForPath_child_ne fs primary.parentPath entry.named differs
    refine List.nodup_append.mpr ⟨paths.nodup ?_, List.nodup_singleton _, ?_⟩
    · -- Two entries of a directory have different names.
      have distinct := (fs.distinct primary.parentPath).sublist
        ((List.filter_sublist (p := fun entry => decide (entry.filename ≠ primary.filename))).trans
          (List.take_sublist maxEnumeratedDirectoryEntries _) |>.map _)
      rw [List.nodup_iff_pairwise_ne, List.pairwise_map] at distinct ⊢
      refine distinct.imp_of_mem fun {first second} _ inSecond differs => ?_
      exact unlike second (List.mem_of_mem_take (List.mem_filter.mp inSecond).1)
        first.filename differs
    · intro key inScan other isPrimary
      obtain rfl := List.mem_singleton.mp isPrimary
      obtain ⟨entry, member, rfl⟩ := List.mem_map.mp (paths.subset inScan)
      obtain ⟨inDirectory, differs⟩ := List.mem_filter.mp member
      have own := unlike entry (List.mem_of_mem_take inDirectory) primary.filename
        (fun eq => of_decide_eq_true differs eq.symm)
      rw [← FilePath.eq_child_parentPath named] at own
      exact own.symm

/-- A group makes a series exactly if its family has more than the primary. -/
theorem entrySeries_isSome_iff {fs : FileSystem} (order : RankSort) {paths : List FilePath}
    {owner : FilePath → FilePath × FilePath} {entry : GroupEntry}
    (count : entry.inputMemberCount = (paths.map owner).countP fun own =>
    own.2 = entry.primaryKey) :
    (∃ series, entrySeries fs order paths owner entry = some series) ↔
      IsFamily fs (paths.map owner) (entry.primary, entry.primaryKey) := by
  -- The siblings are the primary and its candidates.
  have sizes : (enumerateRotatedSiblings fs order entry.primary).files.length =
      (enumerateCandidates fs entry.primary).length + 1 := by
    simp [enumerateRotatedSiblings, (order.perm _).length_eq]
  have none_ : enumerateCandidates fs entry.primary = [] ↔
      (enumerateCandidates fs entry.primary).length = 0 :=
    List.length_eq_zero_iff.symm
  unfold entrySeries IsFamily
  simp only [sizes, ← count, ne_eq, none_]
  split
  · -- One file alone is no series.
    rename_i alone
    simp only [reduceCtorEq, exists_false, false_iff]
    omega
  · rename_i more
    simp only [Option.some.injEq, exists_eq', true_iff]
    omega

/-- The series of a group is in order and lists what the family claims, each file once. -/
theorem entrySeries_spec {fs : FileSystem} {order : RankSort} {paths : List FilePath}
    {owner : FilePath → FilePath × FilePath} {entry : GroupEntry} {series : RotationSeries}
    (agrees : entry.primaryKey = canonicalKeyForPath fs entry.primary)
    (found : entrySeries fs order paths owner entry = some series) :
    OrderedSeries fs paths series ∧ (series.files.map (·.canonicalKey)).Nodup ∧
      ∀ key, key ∈ series.files.map (·.canonicalKey) ↔
        Claims fs paths owner (entry.primary, entry.primaryKey) key := by
  unfold entrySeries at found
  simp only at found
  split at found
  · cases found
  obtain rfl := Option.some.inj found
  obtain ⟨listed, files, sublist, origins, nodup, keys⟩ :=
    mergeListed_spec fs owner entry.primaryKey
    ((order.sort (enumerateCandidates fs entry.primary)).map fun candidate : Candidate =>
      candidate.rotatedFile fs)
    (primaryFile fs entry.primary) paths (enumerateRotatedSiblings_nodup fs order entry.primary)
  simp only [enumerateRotatedSiblings] at files ⊢
  rw [files]
  refine ⟨⟨_, listed, rfl, order.perm _, order.sorted _, sublist, origins⟩, nodup, fun key => ?_⟩
  rw [keys]
  -- What was scanned is what is accepted, whatever the order.
  have scanned : key ∈ ((order.sort (enumerateCandidates fs entry.primary)).map
    (·.rotatedFile fs) ++
      [primaryFile fs entry.primary]).map (·.canonicalKey) ↔
      key = entry.primaryKey ∨
        ∃ candidate ∈ enumerateCandidates fs entry.primary,
          canonicalKeyForPath fs candidate.path = key := by
    simp [Candidate.rotatedFile, primaryFile, (order.perm _).mem_iff, agrees, or_comm]
  rw [scanned, or_assoc]
  rfl

/-- The residual list takes the inputs that nothing has taken, each key once. -/
theorem noteResidual_spec (fs : FileSystem) (taken : List FilePath) (paths : List FilePath) :
    ∃ residual seen, paths.foldl (noteResidual fs) ([], taken) = (residual, seen) ∧
      residual.Sublist paths ∧ (residual.map (canonicalKeyForPath fs)).Nodup ∧
      (∀ path ∈ residual, canonicalKeyForPath fs path ∉ taken) ∧
      (∀ key, key ∈ seen ↔ key ∈ taken ∨ key ∈ residual.map (canonicalKeyForPath fs)) ∧
      ∀ path ∈ paths, canonicalKeyForPath fs path ∈ seen := by
  induction paths using List.reverseRecOn with
  | nil => exact ⟨[], taken, rfl, .slnil, by simp, by simp, by simp, by simp⟩
  -- A path is residual unless its key has been taken or seen.
  | append_singleton before path ih =>
    obtain ⟨residual, seen, same, sublist, nodup, free, keys, covered⟩ := ih
    rw [List.foldl_append, same]
    simp only [List.foldl_cons, List.foldl_nil, noteResidual]
    split
    · -- The key is known, so nothing is added.
      rename_i there
      refine ⟨residual, seen, rfl, sublist.trans (List.sublist_append_left ..), nodup,
        free, keys, ?_⟩
      exact List.forall_mem_append.mpr ⟨covered, by simpa using there⟩
    · -- The key is new to both lists.
      rename_i absent
      have fresh := absent
      rw [keys, not_or] at fresh
      refine ⟨residual ++ [path], _, rfl, sublist.append (.refl _), ?_, ?_, fun key => ?_, ?_⟩
      · rw [List.map_append]
        refine List.nodup_append.mpr ⟨nodup, List.nodup_singleton _, fun key old other new eq => ?_⟩
        obtain rfl : other = canonicalKeyForPath fs path := by simpa using new
        exact fresh.2 (eq ▸ old)
      · exact List.forall_mem_append.mpr ⟨free, by simpa using fresh.1⟩
      · rw [List.mem_cons, keys, List.map_append, List.mem_append, List.map_singleton,
          List.mem_singleton]
        tauto
      · refine List.forall_mem_append.mpr ⟨fun other member =>
          List.mem_cons_of_mem _ (covered other member), ?_⟩
        simp

/-- The owner of an input goes with its own key. -/
theorem ownerOf_key (fs : FileSystem) (inputKeys : List FilePath) (path : FilePath) :
    (ownerOf fs inputKeys path).2 = canonicalKeyForPath fs (ownerOf fs inputKeys path).1 := by
  unfold ownerOf
  split
  · simp only
    split <;> rfl
  · rfl

/-- A family is that of one of the inputs. -/
theorem families_subset (owners : List (FilePath × FilePath)) : families owners ⊆ owners := by
  -- From the back: an owner is listed once, or not again.
  induction owners using List.reverseRecOn with
  | nil => exact List.Subset.refl _
  | append_singleton front owner ih =>
    rw [families_append_singleton]
    split
    · exact List.subset_append_of_subset_left _ ih
    · exact List.append_subset.mpr ⟨List.subset_append_of_subset_left _ ih,
        List.subset_append_right ..⟩

/-- A group has the key of its primary. -/
theorem groupInputs_keyed {fs : FileSystem} {paths : List FilePath}
    {owner : FilePath → FilePath × FilePath}
    (agrees : ∀ path, (owner path).2 = canonicalKeyForPath fs (owner path).1) {entry : GroupEntry}
    (member : entry ∈ groupInputs (paths.map owner)) :
    entry.primaryKey = canonicalKeyForPath fs entry.primary := by
  have family := List.mem_map_of_mem (f := fun entry : GroupEntry =>
    (entry.primary, entry.primaryKey)) member
  rw [(groupInputs_spec (paths.map owner)).1] at family
  obtain ⟨path, -, eq⟩ := List.mem_map.mp (families_subset _ family)
  have key := agrees path
  rwa [eq] at key

/-- Series in any order of the groups are disjoint exactly if the families are apart. -/
theorem seriesKeys_nodup_iff {fs : FileSystem} (order : RankSort) {paths : List FilePath}
    {owner : FilePath → FilePath × FilePath}
    (agrees : ∀ path, (owner path).2 = canonicalKeyForPath fs (owner path).1)
    {groups : List GroupEntry} (perm : groups.Perm (groupInputs (paths.map owner))) :
    (seriesKeys (groups.filterMap (entrySeries fs order paths owner))).Nodup ↔
      (families (paths.map owner)).Pairwise fun first second =>
        IsFamily fs (paths.map owner) first → IsFamily fs (paths.map owner) second →
          ∀ key, ¬(Claims fs paths owner first key ∧ Claims fs paths owner second key) := by
  obtain ⟨same, counts⟩ := groupInputs_spec (paths.map owner)
  have keyed : ∀ entry ∈ groupInputs (paths.map owner),
      entry.primaryKey = canonicalKeyForPath fs entry.primary :=
    fun entry => groupInputs_keyed agrees
  -- Two groups are apart if their series, where both have one, share no key.
  let Apart (first second : GroupEntry) : Prop :=
    ∀ one, entrySeries fs order paths owner first = some one →
    ∀ other, entrySeries fs order paths owner second = some other →
      List.Disjoint (one.files.map (·.canonicalKey)) (other.files.map (·.canonicalKey))
  have symmetric : ∀ first second, Apart first second → Apart second first :=
    fun first second apart one made other madeToo => (apart other madeToo one made).symm
  have disjoint : (seriesKeys (groups.filterMap (entrySeries fs order paths owner))).Nodup ↔
      groups.Pairwise Apart := by
    unfold seriesKeys
    rw [List.nodup_flatMap, List.pairwise_filterMap]
    refine and_iff_right fun series member => ?_
    obtain ⟨entry, inGroups, made⟩ := List.mem_filterMap.mp member
    exact (entrySeries_spec (keyed entry (perm.subset inGroups)) made).2.1
  rw [disjoint, perm.pairwise_iff (symmetric _ _), ← same, List.pairwise_map]
  refine List.Pairwise.iff_of_mem fun {first second} inFirst inSecond => ?_
  rw [← entrySeries_isSome_iff order (counts first inFirst),
    ← entrySeries_isSome_iff order (counts second inSecond)]
  constructor
  · rintro apart ⟨one, made⟩ ⟨other, madeToo⟩ key ⟨claimed, claimedToo⟩
    rw [← (entrySeries_spec (keyed first inFirst) made).2.2] at claimed
    rw [← (entrySeries_spec (keyed second inSecond) madeToo).2.2] at claimedToo
    exact apart one made other madeToo claimed claimedToo
  · intro apart one made other madeToo key inOne inOther
    rw [(entrySeries_spec (keyed first inFirst) made).2.2] at inOne
    rw [(entrySeries_spec (keyed second inSecond) madeToo).2.2] at inOther
    exact apart ⟨one, made⟩ ⟨other, madeToo⟩ key ⟨inOne, inOther⟩

/-- The selection is a partition exactly if no file is claimed by two of its families. -/
theorem partitionAsRotationSeries_isPartition_iff (fs : FileSystem) (order : RankSort)
    (paths : List FilePath) :
    IsPartition fs paths (partitionAsRotationSeries fs order paths) ↔ FamiliesApart fs paths := by
  rcases List.eq_nil_or_concat paths with rfl | ⟨front, last, rfl⟩
  · exact iff_of_true ⟨by simp, by simp [partitionAsRotationSeries, PartitionedSelection.keys, seriesKeys],
      by simp [partitionAsRotationSeries], by simp [partitionAsRotationSeries]⟩
        (by simp [FamiliesApart, families])
  generalize all : front.concat last = paths
  have some_ : paths ≠ [] := by simp [← all]
  let inputKeys := paths.map (canonicalKeyForPath fs)
  let owner := ownerOf fs inputKeys
  let groups := (groupInputs (paths.map owner)).insertionSort fun a b =>
    a.firstOrdinal ≤ b.firstOrdinal
  let series := groups.filterMap (entrySeries fs order paths owner)
  have perm : groups.Perm (groupInputs (paths.map owner)) := List.perm_insertionSort _ _
  have apart := seriesKeys_nodup_iff order (ownerOf_key fs inputKeys) perm
  obtain ⟨residual, seen, rest, sublist, nodup, free, keys, covered⟩ :=
    noteResidual_spec fs ((seriesKeys series).filter (· ∈ inputKeys)) paths
  have selection : partitionAsRotationSeries fs order paths = ⟨series, residual⟩ := by
    rw [partitionAsRotationSeries, if_neg some_]
    simp only
    rw [rest]
  rw [selection, FamiliesApart, ← apart]
  constructor
  · intro partition
    exact (List.nodup_append.mp partition.once).1
  · intro disjoint
    refine ⟨fun path member => ?_, ?_, sublist, fun own member => ?_⟩
    · have there := covered path member
      rw [keys] at there
      rcases there with inSeries | inResidual
      · exact List.mem_append_left _ (List.mem_of_mem_filter inSeries)
      · exact List.mem_append_right _ inResidual
    · refine List.nodup_append.mpr ⟨disjoint, nodup, fun key inSeries other inResidual eq => ?_⟩
      -- A residual input was free, so no series has it.
      subst eq
      obtain ⟨path, member, same⟩ := List.mem_map.mp inResidual
      refine free path member (List.mem_filter.mpr ⟨same ▸ inSeries, decide_eq_true ?_⟩)
      exact List.mem_map_of_mem (sublist.subset member)
    · obtain ⟨entry, inGroups, made⟩ := List.mem_filterMap.mp member
      exact (entrySeries_spec (groupInputs_keyed (ownerOf_key fs inputKeys) (perm.subset inGroups))
        made).1

/-- Sorting by insertion sorts by rank. -/
theorem insertionSort_byRank (candidates : List Candidate) :
    (candidates.insertionSort fun a b => a.sortRank ≤ b.sortRank).Pairwise fun a b =>
      a.sortRank ≤ b.sortRank := by
  have : Std.Total fun a b : Candidate => a.sortRank ≤ b.sortRank :=
    ⟨fun a b => le_total a.sortRank b.sortRank⟩
  have : IsTrans Candidate fun a b => a.sortRank ≤ b.sortRank :=
    ⟨fun _ _ _ first second => first.trans second⟩
  exact List.pairwise_insertionSort _ candidates

/-- A sort by rank that leaves equal ranks where they are. -/
def RankSort.stable : RankSort where
  sort candidates := candidates.insertionSort fun a b => a.sortRank ≤ b.sortRank
  perm := List.perm_insertionSort _
  sorted := insertionSort_byRank

/-- A directory with a log file, its rotated file, and a rotated file of that. -/
def chainNames : List DirectoryEntry :=
  [⟨bytes "app.log", true, by decide⟩, ⟨bytes "app.log.1", true, by decide⟩,
    ⟨bytes "app.log.1.1", true, by decide⟩]

/-- The file system with that directory. -/
def chainSystem : FileSystem where
  currentPath := some []
  exists_ _ := true
  isDirectory _ := true
  entries _ := chainNames
  distinct _ := by decide

/-- All three files selected. -/
def chainPaths : List FilePath :=
  chainNames.map fun entry => ⟨true, [bytes "d", entry.filename], false⟩

/-- The file in the middle is in two series. -/
theorem chainPaths_in_two_series :
    ((partitionAsRotationSeries chainSystem .stable chainPaths).series.map fun series =>
        series.files.map fun file => file.path.filename) =
      [[bytes "app.log.1", bytes "app.log"], [bytes "app.log.1.1", bytes "app.log.1"]] ∧
    ¬IsPartition chainSystem chainPaths
      (partitionAsRotationSeries chainSystem .stable chainPaths) :=
  ⟨by decide +kernel, fun partition => absurd partition.once (by decide +kernel)⟩

end Loglib
