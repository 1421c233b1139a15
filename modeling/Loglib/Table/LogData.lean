import Loglib.Table.LogLine

/-! Parsed data: its sources, its lines and its key index, and the merge of two of them. -/

namespace Loglib

/-- A line source and the dictionaries that it points at, none before a table has taken it over. -/
structure AttachedSource where
  source : LineSource
  registry : Option EnumDictionaryRegistry

/-- The keys of the other index, interned one by one: the grown index, and the remap table
by old id. -/
def remapKeys : KeyIndex → List Bytes → KeyIndex × List KeyId
  | keys, [] => (keys, [])
  | keys, key :: rest =>
    let (keys, id) := keys.getOrInsert key
    let (keys, remap) := remapKeys keys rest
    (keys, id :: remap)

/-- The remapped keys keep the ids of the index, and the remap table holds the ids of the
other keys. -/
theorem remapKeys_spec (keys : KeyIndex) (names : List Bytes) :
    keys.Grows (remapKeys keys names).1 ∧ ∀ (position : Nat) (name : Bytes),
      names[position]? = some name →
      ∃ id, (remapKeys keys names).2[position]? = some id ∧
        (remapKeys keys names).1.find name = some id := by
  induction names generalizing keys with
  | nil => exact ⟨.refl keys, fun position name there => by simp at there⟩
  | cons key rest ih =>
    obtain ⟨grows, later⟩ := ih (keys.getOrInsert key).1
    refine ⟨(keys.getOrInsert_grows key).trans grows, fun position name there => ?_⟩
    cases position with
    | zero =>
      -- The key takes its id now, and keeps it while the others are interned.
      obtain rfl : key = name := Option.some.inj there
      exact ⟨_, rfl, grows.find (keys.find_getOrInsert_self key)⟩
    | succ position => exact later position name there

/-- `LogData`. Every line is bound to its key index, and belongs to one of its sources. -/
structure LogData where
  sources : List AttachedSource
  lines : List LogLine
  keys : KeyIndex
  timestampsAlreadyParsed : Bool
  known : ∀ line ∈ lines, ∀ entry ∈ line.values.entries, entry.1 < keys.size
  owned : ∀ line ∈ lines, line.source < sources.length

namespace LogData

/-- A slot's value, read through the source of its line. -/
def materialise (data : LogData) (line : LogLine) (entry : KeyId × CompactLogValue) : LogValue :=
  entry.2.materialise (data.sources[line.source]?.map (·.source))
    ((data.sources[line.source]?.bind (·.registry)).getD .empty) line.lineId entry.1

/-- `Values`: what the line maps a key to. The first entry of a key is the one that is emplaced. -/
def values (data : LogData) (line : LogLine) (key : Bytes) : Option LogValue :=
  (line.values.entries.find? fun entry => data.keys.keyOf entry.1 == some key).map
    (data.materialise line)

/-- `GetValue` by name. -/
def getValue (data : LogData) (line : LogLine) (key : Bytes) : LogValue :=
  if key = [] then .monostate
  else
    match data.keys.find key with
    | none => .monostate
    | some id =>
      match line.findCompact id with
      | none => .monostate
      | some slot => data.materialise line (id, slot)

/-- The key index that both sides share after a merge. -/
def mergedKeys (data other : LogData) : KeyIndex := (remapKeys data.keys other.keys.reverse.names).1

/-- The id that the merge gives to a key of the other side. -/
def remap (data other : LogData) (id : KeyId) : KeyId :=
  (remapKeys data.keys other.keys.reverse.names).2.getD id 0

/-- A key has one name before and after its remapping. -/
theorem keyOf_remap (data other : LogData) {id : KeyId} {key : Bytes}
    (named : other.keys.keyOf id = some key) :
    (data.mergedKeys other).keyOf (data.remap other id) = some key := by
  obtain ⟨new, there, found⟩ := (remapKeys_spec data.keys other.keys.reverse.names).2 id key named
  have place : data.remap other id = new := by
    rw [remap, List.getD_eq_getElem?_getD, there, Option.getD_some]
  rw [place]
  exact Interner.find_eq_some_iff.mp found

/-- Two keys of the other side do not get one id. -/
theorem remap_injective (data other : LogData) {first second : KeyId}
    (firstKnown : first < other.keys.size)
    (secondKnown : second < other.keys.size)
    (same : data.remap other first = data.remap other second) : first = second := by
  obtain ⟨key, named⟩ := Interner.get_of_lt firstKnown
  obtain ⟨other_, renamed⟩ := Interner.get_of_lt secondKnown
  have left := data.keyOf_remap other named
  rw [same, data.keyOf_remap other renamed] at left
  -- They would have one name, and names are distinct.
  obtain rfl : other_ = key := Option.some.inj left
  have found := Interner.find_eq_some_iff.mpr named
  rw [Interner.find_eq_some_iff.mpr renamed] at found
  exact (Option.some.inj found).symm

/-- The fields of a line under their new ids, sorted again. -/
def remapped (data other : LogData) (entries : List (KeyId × CompactLogValue)) :
    List (KeyId × CompactLogValue) :=
  (entries.map fun entry => (data.remap other entry.1, entry.2)).insertionSort fun first second =>
    first.1 ≤ second.1

/-- Remapped fields are the old ones, in some order. -/
theorem remapped_perm (data other : LogData) (entries : List (KeyId × CompactLogValue)) :
    (data.remapped other entries).Perm
      (entries.map fun entry => (data.remap other entry.1, entry.2)) :=
  List.perm_insertionSort _ _

/-- Remapped fields are sorted by key, without duplicates. -/
theorem remapped_sorted (data other : LogData) {entries : List (KeyId × CompactLogValue)}
    (sorted : entries.Pairwise fun first second => first.1 < second.1)
    (known : ∀ entry ∈ entries, entry.1 < other.keys.size) :
    (data.remapped other entries).Pairwise fun first second => first.1 < second.1 := by
  -- The remapping is injective, so the ids stay distinct whatever the sort does with them.
  have distinct : (entries.map fun entry => (data.remap other entry.1, entry.2)).Pairwise
      fun first second => first.1 ≠ second.1 := by
    rw [List.pairwise_map]
    refine sorted.imp_of_mem fun {first second} mem memToo less same => less.ne ?_
    exact data.remap_injective other (known first mem) (known second memToo) same
  have unequal := (data.remapped_perm other entries).symm.pairwise distinct fun differs =>
    differs.symm
  have total : Std.Total fun first second : KeyId × CompactLogValue => first.1 ≤ second.1 :=
    ⟨fun _ _ => Nat.le_total _ _⟩
  have trans : IsTrans (KeyId × CompactLogValue) fun first second => first.1 ≤ second.1 :=
    ⟨fun _ _ _ => Nat.le_trans⟩
  have ascending : (data.remapped other entries).Pairwise fun first second => first.1 ≤ second.1 :=
    List.pairwise_insertionSort _ _
  exact (ascending.and unequal).imp fun both => lt_of_le_of_ne both.1 both.2

/-- A known field stays known: its new id lies in the merged index. -/
theorem remap_lt (data other : LogData) {id : KeyId} (known : id < other.keys.size) :
    data.remap other id < (data.mergedKeys other).size := by
  obtain ⟨key, named⟩ := Interner.get_of_lt known
  exact Interner.lt_of_get (data.keyOf_remap other named)

/-- A line of the other side as the merge rebuilds it. Its source comes behind the sources
of this side. -/
def rebuilt (data other : LogData) (line : LogLine) (member : line ∈ other.lines) : LogLine where
  values := ⟨data.remapped other line.values.entries,
    data.remapped_sorted other line.values.sorted (other.known line member)⟩
  source := data.sources.length + line.source
  lineId := line.lineId

/-- `Merge`. -/
def merge (data other : LogData) : LogData where
  sources := data.sources ++ other.sources
  lines := data.lines ++ other.lines.attach.map fun line => data.rebuilt other line.1 line.2
  keys := data.mergedKeys other
  timestampsAlreadyParsed := data.timestampsAlreadyParsed || other.timestampsAlreadyParsed
  known := by
    have grown := Interner.Grows.size_le (remapKeys_spec data.keys other.keys.reverse.names).1
    simp only [List.mem_append, List.mem_map, List.mem_attach, true_and, Subtype.exists]
    rintro line (own | ⟨old, member, rfl⟩) entry held
    · exact (data.known line own entry held).trans_le grown
    · obtain ⟨field, inLine, rfl⟩ := List.mem_map.mp ((data.remapped_perm other _).subset held)
      exact data.remap_lt other (other.known old member field inLine)
  owned := by
    simp only [List.mem_append, List.mem_map, List.mem_attach, true_and, Subtype.exists,
      List.length_append]
    rintro line (own | ⟨old, member, rfl⟩)
    · exact Nat.lt_add_right _ (data.owned line own)
    · exact Nat.add_lt_add_left (other.owned old member) _

/-! What a line maps its keys to. -/

/-- The value of a key is that of the one field with this key. -/
theorem values_eq_some_iff {data : LogData} {line : LogLine} {key : Bytes} {value : LogValue} :
    data.values line key = some value ↔
      ∃ entry ∈ line.values.entries, data.keys.keyOf entry.1 = some key ∧
        data.materialise line entry = value := by
  rw [values, Option.map_eq_some_iff]
  constructor
  · rintro ⟨entry, found, rfl⟩
    exact ⟨entry, List.mem_of_find?_eq_some found, by simpa using List.find?_some found, rfl⟩
  · rintro ⟨entry, member, named, rfl⟩
    obtain ⟨first, found⟩ : ∃ first,
      line.values.entries.find? (fun entry => data.keys.keyOf entry.1 == some key) = some first :=
      Option.isSome_iff_exists.mp (List.find?_isSome.mpr ⟨entry, member, beq_iff_eq.mpr named⟩)
    -- The field that is found has the same key, hence the same id, and a line holds an id once.
    have sameKey : data.keys.keyOf first.1 = some key := by simpa using List.find?_some found
    have sameId : first.1 = entry.1 :=
      Option.some.inj ((Interner.find_eq_some_iff.mpr sameKey).symm.trans
        (Interner.find_eq_some_iff.mpr named))
    have same : first = entry :=
      line.values.entry_unique (List.mem_of_find?_eq_some found) member sameId
    exact ⟨first, found, by rw [same]⟩

/-- Reading a value by name finds what the line maps the name to. -/
theorem getValue_eq (data : LogData) (line : LogLine) {key : Bytes} (named : key ≠ []) :
    data.getValue line key = (data.values line key).getD .monostate := by
  rw [getValue, if_neg named]
  cases held : data.values line key with
  | some value =>
    obtain ⟨⟨id, slot⟩, member, keyed, rfl⟩ := values_eq_some_iff.mp held
    have found : data.keys.find key = some id := Interner.find_eq_some_iff.mpr keyed
    have reads : line.findCompact id = some slot := SortedMap.lookup_eq_some_iff.mpr member
    simp only [found, reads, Option.getD_some]
  | none =>
    cases found : data.keys.find key with
    | none => rfl
    | some id =>
      cases reads : line.findCompact id with
      | none =>
        simp only [reads]
        rfl
      | some slot =>
        -- A slot under the key's id would be a field of the line.
        have member := SortedMap.lookup_eq_some_iff.mp reads
        have some_ := values_eq_some_iff.mpr ⟨(id, slot), member,
          Interner.find_eq_some_iff.mp found, rfl⟩
        rw [held] at some_
        cases some_

/-- A line of this side keeps its values in the merge. -/
theorem values_merge_left (data other : LogData) {line : LogLine} (member : line ∈ data.lines) :
    (data.merge other).values line = data.values line := by
  have grows : data.keys.Grows (data.mergedKeys other) :=
    (remapKeys_spec data.keys other.keys.reverse.names).1
  have sameSource : (data.merge other).sources[line.source]? = data.sources[line.source]? :=
    List.getElem?_append_left (data.owned line member)
  have sameSlot (entry : KeyId × CompactLogValue) : (data.merge other).materialise line entry =
      data.materialise line entry := by
    rw [materialise, materialise, sameSource]
  funext key
  refine Option.ext fun value => ?_
  rw [values_eq_some_iff, values_eq_some_iff]
  refine exists_congr fun entry => and_congr_right fun held => ?_
  rw [sameSlot]
  refine and_congr_left fun _ => ?_
  -- The field's id was known before, so it has the name that it had.
  obtain ⟨name, named⟩ := Interner.get_of_lt (data.known line member entry held)
  have stillNamed : (data.merge other).keys.keyOf entry.1 = some name := grows.get named
  have namedBefore : data.keys.keyOf entry.1 = some name := named
  rw [stillNamed, namedBefore]

/-- The dictionary slots of a line of the other side read the same dictionary under their new id as
under the old one. -/
def KeepsDictionaries (data other : LogData) (line : LogLine) : Prop :=
  ∀ entry ∈ line.values.entries, entry.2.isDictRef = true →
    ((other.sources[line.source]?.bind (·.registry)).getD .empty).find (data.remap other entry.1) =
      ((other.sources[line.source]?.bind (·.registry)).getD .empty).find entry.1

/-- A line as the parsers build it has no dictionary slots. -/
theorem keepsDictionaries_of_raw {data other : LogData} {line : LogLine}
    (raw : ∀ entry ∈ line.values.entries, entry.2.isDictRef = false) :
    data.KeepsDictionaries other line := by
  intro entry held isDict
  rw [raw entry held] at isDict
  cases isDict

/-- A line of the other side keeps its values in the merge. -/
theorem values_rebuilt (data other : LogData) {line : LogLine} (member : line ∈ other.lines)
    (keeps : data.KeepsDictionaries other line) :
    (data.merge other).values (data.rebuilt other line member) = other.values line := by
  -- The sources of the other data stand behind the own ones, and the line points there.
  have sameSource : (data.merge other).sources[(data.rebuilt other line member).source]? =
      other.sources[line.source]? := by
    show (data.sources ++ other.sources)[data.sources.length + line.source]? = _
    rw [List.getElem?_append_right (Nat.le_add_right _ _), Nat.add_sub_cancel_left]
  -- A raw slot reads the same bytes; an id reads its dictionary, which has been kept.
  have sameSlot {entry : KeyId × CompactLogValue} (held : entry ∈ line.values.entries) :
      (data.merge other).materialise (data.rebuilt other line member) (data.remap other entry.1,
        entry.2) =
        other.materialise line entry := by
    rw [materialise, materialise, sameSource]
    by_cases raw : entry.2.isDictRef = false
    · exact CompactLogValue.materialise_congr raw _ _ _ _ _ _
    · exact CompactLogValue.materialise_of_find
        (keeps entry held (Bool.eq_true_of_not_eq_false raw)) _ _
  -- A key shows what it showed, since the entries have only been renamed.
  funext key
  refine Option.ext fun value => ?_
  rw [values_eq_some_iff, values_eq_some_iff]
  constructor
  · -- An entry of the new line comes from one of the old line, under the same name.
    rintro ⟨field, held, named, rfl⟩
    obtain ⟨entry, inLine, rfl⟩ := List.mem_map.mp ((data.remapped_perm other _).subset held)
    obtain ⟨name, namedBefore⟩ := Interner.get_of_lt (other.known line member entry inLine)
    have same : some name = some key := (data.keyOf_remap other namedBefore).symm.trans named
    exact ⟨entry, inLine, namedBefore.trans same, (sameSlot inLine).symm⟩
  · rintro ⟨entry, inLine, named, rfl⟩
    refine ⟨(data.remap other entry.1, entry.2), ?_, data.keyOf_remap other named, sameSlot inLine⟩
    exact (data.remapped_perm other _).symm.subset (List.mem_map_of_mem inLine)

/--
A merge keeps every field.

The lines of both sides stand one after the other. Each maps its keys to the values that it had, by
name and by slot, and its fields are sorted by key without duplicates. The dictionary slots of the
merged-in side must find the same dictionary under their new ids. -/
theorem merge_keepsFields (data other : LogData)
    (keeps : ∀ line ∈ other.lines, data.KeepsDictionaries other line) :
    ∃ rebuiltLines : List LogLine, (data.merge other).lines = data.lines ++ rebuiltLines ∧
      rebuiltLines.length = other.lines.length ∧
      (∀ line ∈ data.lines, (data.merge other).values line = data.values line ∧
        (data.merge other).getValue line = data.getValue line) ∧
      (∀ (position : Nat) (line new : LogLine), other.lines[position]? = some line →
        rebuiltLines[position]? = some new →
        new.lineId = line.lineId ∧ (data.merge other).values new = other.values line ∧
          (data.merge other).getValue new = other.getValue line) ∧
      ∀ line ∈ (data.merge other).lines, line.values.entries.Pairwise fun first second =>
        first.1 < second.1 := by
  -- What a key is read as is determined by the values under it.
  have sameReads {before : LogData} {old new : LogLine} (same : (data.merge other).values new =
    before.values old) :
      (data.merge other).getValue new = before.getValue old := by
    funext key
    by_cases named : key = []
    · rw [getValue, getValue, if_pos named, if_pos named]
    · rw [getValue_eq _ _ named, getValue_eq _ _ named, same]
  refine ⟨_, rfl, by simp, fun line member => ?_,
    fun position line new there place => ?_, fun line _ => line.values.sorted⟩
  · -- The own lines stay as they are.
    have same := data.values_merge_left other member
    exact ⟨same, sameReads same⟩
  · -- A line of the other data is rebuilt at its place.
    rw [List.getElem?_map, Option.map_eq_some_iff] at place
    obtain ⟨⟨old, member⟩, sits, rfl⟩ := place
    have same : some old = some line := by
      have value := congrArg (Option.map Subtype.val) sits
      rw [← List.getElem?_map, List.attach_map_subtype_val] at value
      exact value.symm.trans there
    obtain rfl := Option.some.inj same
    have sameValues := data.values_rebuilt other member (keeps old member)
    exact ⟨rfl, sameValues, sameReads sameValues⟩

/-- Data with one key and one line, which has a slot under this key. -/
def ofSlot (key : Bytes) (registry : Option EnumDictionaryRegistry) (slot : CompactLogValue) :
    LogData where
  sources := [⟨.file (.ofData []), registry⟩]
  lines := [.ofField 0 0 0 slot]
  keys := (KeyIndex.empty.getOrInsert key).1
  timestampsAlreadyParsed := false
  known := by
    have interned := Interner.find_lt_size ((KeyIndex.empty).find_getOrInsert_self key)
    simp only [List.mem_singleton, forall_eq]
    rintro entry held
    obtain rfl := List.mem_singleton.mp held
    exact Nat.zero_lt_of_lt interned
  owned := by simp [LogLine.ofField]

/-- Parsed data holds no dictionary slots, and its number is read under the id that its key gets. -/
theorem parsedNumber_kept :
    ∃ new, ((ofSlot (bytes "level") none (.int64 3)).merge
      (ofSlot (bytes "size") none (.int64 7))).lines =
      [.ofField 0 0 0 (.int64 3), new] ∧
    ((ofSlot (bytes "level") none (.int64 3)).merge
      (ofSlot (bytes "size") none (.int64 7))).getValue new (bytes "size") =
      .int64 7 := by
  -- The other file has no references.
  have keeps : ∀ line ∈ (ofSlot (bytes "size") none (.int64 7)).lines,
      (ofSlot (bytes "level") none (.int64 3)).KeepsDictionaries
        (ofSlot (bytes "size") none (.int64 7)) line := by
    intro line member
    obtain rfl := List.mem_singleton.mp member
    exact keepsDictionaries_of_raw (by decide)
  obtain ⟨rebuiltLines, all, count, -, kept, -⟩ := merge_keepsFields _ _ keeps
  obtain ⟨new, rfl⟩ := List.length_eq_one_iff.mp count
  have reads := congrFun (kept 0 _ new rfl rfl).2.2 (bytes "size")
  exact ⟨new, all, reads.trans (by decide)⟩

/-- The registry of a table with one dictionary. -/
def levelRegistry : EnumDictionaryRegistry :=
  (EnumDictionaryRegistry.empty.getOrInsert 0 defaultEnumValueCap).write 0
    ((EnumDictionary.ofCap defaultEnumValueCap).insert (bytes "INFO")).1

/-- A dictionary slot moves to another id and loses its dictionary. -/
theorem dictionarySlot_lost :
    let other := ofSlot (bytes "level") (some levelRegistry) (.dictRef 0)
    let merged := (ofSlot (bytes "size") none (.int64 7)).merge other
    (other.lines.map fun line => other.values line (bytes "level")) =
      [some (.string (bytes "INFO"))] ∧
      ((merged.lines.drop 1).map fun line => merged.values line (bytes "level")) =
        [some .monostate] := by
  decide

end LogData

end Loglib
