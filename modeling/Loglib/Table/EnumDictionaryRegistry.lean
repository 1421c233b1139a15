import Loglib.Table.EnumDictionary

/-! The registry of dictionaries: several alias keys can share one dictionary. -/

namespace Loglib

/-- A dictionary and every key that points at it, the canonical key included. -/
structure DictionaryEntry where
  dict : EnumDictionary
  aliases : List KeyId

/-- Dictionaries by canonical key, and the canonical key each key points at. -/
structure EnumDictionaryRegistry where
  dictionaries : KeyId → Option DictionaryEntry
  index : KeyId → Option KeyId
  /-- An indexed key points at a live dictionary that lists the key. -/
  live : ∀ key canonical, index key = some canonical →
    ∃ entry, dictionaries canonical = some entry ∧ key ∈ entry.aliases
  /-- A listed key is indexed. -/
  listed : ∀ canonical entry key, dictionaries canonical = some entry →
    key ∈ entry.aliases → index key = some canonical
  /-- A canonical key lists itself. -/
  rooted : ∀ canonical entry, dictionaries canonical = some entry → canonical ∈ entry.aliases

namespace EnumDictionaryRegistry

/-- The registry without dictionaries, which is also what `Clear` leaves. -/
def empty : EnumDictionaryRegistry where
  dictionaries _ := none
  index _ := none
  live _ _ found := by simp at found
  listed _ _ _ found := by simp at found
  rooted _ _ found := by simp at found

/-- The dictionary a key points at. -/
def find (registry : EnumDictionaryRegistry) (key : KeyId) : Option EnumDictionary :=
  (registry.index key).bind fun canonical => (registry.dictionaries canonical).map (·.dict)

/-- A key that points nowhere owns no dictionary either. -/
theorem dictionaries_eq_none {registry : EnumDictionaryRegistry} {key : KeyId}
    (absent : registry.index key = none) : registry.dictionaries key = none := by
  cases held : registry.dictionaries key with
  | none => rfl
  | some entry =>
    have indexed := registry.listed key entry key held (registry.rooted key entry held)
    simp [absent] at indexed

/-- Keys that point at one canonical key find the same dictionary. -/
theorem find_eq_of_index_eq {registry : EnumDictionaryRegistry} {first second : KeyId}
    (same : registry.index first = registry.index second) :
    registry.find first = registry.find second := by
  simp [find, same]

/-- A key finds a dictionary exactly when it is indexed. -/
theorem find_eq_none_iff {registry : EnumDictionaryRegistry} {key : KeyId} :
    registry.find key = none ↔ registry.index key = none := by
  cases indexed : registry.index key with
  | none => simp [find, indexed]
  | some canonical =>
    obtain ⟨entry, held, -⟩ := registry.live key canonical indexed
    simp [find, indexed, held]

/-- A fresh key becomes the canonical key of a new dictionary. -/
def create (registry : EnumDictionaryRegistry) (key : KeyId) (cap : Nat)
    (fresh : registry.index key = none) : EnumDictionaryRegistry where
  dictionaries := Function.update registry.dictionaries key (some ⟨.ofCap cap, [key]⟩)
  index := Function.update registry.index key (some key)
  live other canonical found := by
    by_cases same : other = key
    · subst same
      have : other = canonical := by simpa using found
      subst this
      exact ⟨⟨.ofCap cap, [other]⟩, by simp⟩
    · have indexed : registry.index other = some canonical := by
        simpa [Function.update_of_ne same] using found
      obtain ⟨entry, held, member⟩ := registry.live other canonical indexed
      have differs : canonical ≠ key := by
        rintro rfl
        simp [dictionaries_eq_none fresh] at held
      exact ⟨entry, by simpa [Function.update_of_ne differs] using held, member⟩
  listed canonical entry other held member := by
    by_cases same : canonical = key
    · subst same
      have : (⟨.ofCap cap, [canonical]⟩ : DictionaryEntry) = entry := by simpa using held
      subst this
      have : other = canonical := by simpa using member
      simp [this]
    · have owned : registry.dictionaries canonical = some entry := by
        simpa [Function.update_of_ne same] using held
      have indexed := registry.listed canonical entry other owned member
      have differs : other ≠ key := by
        rintro rfl
        simp [fresh] at indexed
      simpa [Function.update_of_ne differs] using indexed
  rooted canonical entry held := by
    by_cases same : canonical = key
    · subst same
      have : (⟨.ofCap cap, [canonical]⟩ : DictionaryEntry) = entry := by simpa using held
      simp [← this]
    · exact registry.rooted canonical entry (by simpa [Function.update_of_ne same] using held)

/-- The registry with a dictionary for the key: the one it points at, or a new one. -/
def getOrInsert (registry : EnumDictionaryRegistry) (key : KeyId) (cap : Nat) :
    EnumDictionaryRegistry :=
  match fresh : registry.index key with
  | some _ => registry
  | none => registry.create key cap fresh

/-- Write through the pointer of a key: the dictionary it points at changes for all its keys. -/
def write (registry : EnumDictionaryRegistry) (key : KeyId) (dict : EnumDictionary) :
    EnumDictionaryRegistry :=
  match registry.index key with
  | none => registry
  | some owner =>
    { registry with
      dictionaries := fun canonical =>
        (registry.dictionaries canonical).map fun entry =>
          if canonical = owner then { entry with dict := dict } else entry
      live := fun other canonical found => by
        obtain ⟨entry, held, member⟩ := registry.live other canonical found
        refine ⟨if canonical = owner then { entry with dict := dict }
          else entry, by simp [held], ?_⟩
        split <;> exact member
      listed := fun canonical entry other held member => by
        obtain ⟨old, owned, same⟩ := Option.map_eq_some_iff.mp held
        refine registry.listed canonical old other owned ?_
        rw [← same] at member
        split at member <;> exact member
      rooted := fun canonical entry held => by
        obtain ⟨old, owned, same⟩ := Option.map_eq_some_iff.mp held
        rw [← same]
        have := registry.rooted canonical old owned
        split <;> exact this }

/-- A new key joins the keys of a live dictionary. -/
def join (registry : EnumDictionaryRegistry) (canonical key : KeyId) (entry : DictionaryEntry)
    (held : registry.dictionaries canonical = some entry) (fresh : registry.index key = none) :
    EnumDictionaryRegistry where
  dictionaries :=
    Function.update registry.dictionaries canonical
      (some { entry with aliases := entry.aliases ++ [key] })
  index := Function.update registry.index key (some canonical)
  live other owner found := by
    by_cases joined : other = key
    · subst joined
      have : canonical = owner := by simpa using found
      subst this
      exact ⟨{ entry with aliases := entry.aliases ++ [other] }, by simp⟩
    · have indexed : registry.index other = some owner := by
        simpa [Function.update_of_ne joined] using found
      obtain ⟨old, owned, member⟩ := registry.live other owner indexed
      by_cases same : owner = canonical
      · subst same
        have : entry = old := Option.some.inj (held.symm.trans owned)
        subst this
        exact ⟨{ entry with aliases := entry.aliases ++ [key] }, by simp [member]⟩
      · exact ⟨old, by simpa [Function.update_of_ne same] using owned, member⟩
  listed owner new other found member := by
    by_cases same : owner = canonical
    · subst same
      have : { entry with aliases := entry.aliases ++ [key] } = new := by simpa using found
      subst this
      rcases List.mem_append.mp member with old | joined
      · have indexed := registry.listed owner entry other held old
        have differs : other ≠ key := by
          rintro rfl
          simp [fresh] at indexed
        simpa [Function.update_of_ne differs] using indexed
      · simp [List.mem_singleton.mp joined]
    · have owned : registry.dictionaries owner = some new := by
        simpa [Function.update_of_ne same] using found
      have indexed := registry.listed owner new other owned member
      have differs : other ≠ key := by
        rintro rfl
        simp [fresh] at indexed
      simpa [Function.update_of_ne differs] using indexed
  rooted owner new found := by
    by_cases same : owner = canonical
    · subst same
      have : { entry with aliases := entry.aliases ++ [key] } = new := by simpa using found
      simp [← this, registry.rooted owner entry held]
    · exact registry.rooted owner new (by simpa [Function.update_of_ne same] using found)

/-- `Alias`: map a key to a canonical key's dictionary. False on a violated precondition. -/
def aliasTo (registry : EnumDictionaryRegistry) (canonical key : KeyId) :
    EnumDictionaryRegistry × Bool :=
  if canonical = key then (registry, true)
  else
    match held : registry.dictionaries canonical with
    | none => (registry, false)
    | some entry =>
      match fresh : registry.index key with
      -- Idempotent if already pointing at the same dictionary, else a conflict.
      | some owner => (registry, owner = canonical)
      | none =>
        -- An unindexed key owns no dictionary, so the source's last check never fires.
        (registry.join canonical key entry held fresh, true)

/-- Drop the dictionary at a canonical key and every alias to it. -/
def erase (registry : EnumDictionaryRegistry) (canonical : KeyId) : EnumDictionaryRegistry :=
  match held : registry.dictionaries canonical with
  | none => registry
  | some entry =>
    { dictionaries := Function.update registry.dictionaries canonical none
      index := fun key => if key ∈ entry.aliases then none else registry.index key
      live := fun key owner found => by
        by_cases member : key ∈ entry.aliases
        · simp [member] at found
        · have indexed : registry.index key = some owner := by simpa [member] using found
          obtain ⟨old, owned, lists⟩ := registry.live key owner indexed
          have differs : owner ≠ canonical := by
            rintro rfl
            have : entry = old := Option.some.inj (held.symm.trans owned)
            exact member (this ▸ lists)
          exact ⟨old, by simpa [Function.update_of_ne differs] using owned, lists⟩
      listed := fun owner old key found member => by
        by_cases same : owner = canonical
        · simp [same] at found
        · have owned : registry.dictionaries owner = some old := by
            simpa [Function.update_of_ne same] using found
          have indexed := registry.listed owner old key owned member
          have outside : key ∉ entry.aliases := fun inside => by
            have := registry.listed canonical entry key held inside
            exact same (Option.some.inj (indexed.symm.trans this))
          simpa [outside] using indexed
      rooted := fun owner old found => by
        by_cases same : owner = canonical
        · simp [same] at found
        · exact registry.rooted owner old (by simpa [Function.update_of_ne same] using found) }

/-- A canonical key points at its own dictionary. -/
theorem index_of_dictionaries {registry : EnumDictionaryRegistry} {canonical : KeyId}
    {entry : DictionaryEntry} (held : registry.dictionaries canonical = some entry) :
    registry.index canonical = some canonical :=
  registry.listed canonical entry canonical held (registry.rooted canonical entry held)

/-- Only an unindexed key is indexed anew, and it becomes canonical. -/
theorem index_getOrInsert (registry : EnumDictionaryRegistry) (key other : KeyId) (cap : Nat) :
    (registry.getOrInsert key cap).index other =
      if other = key ∧ registry.index key = none then some key else registry.index other := by
  unfold getOrInsert
  split
  · rename_i owner indexed
    simp [indexed]
  · rename_i fresh
    by_cases same : other = key <;> simp [create, fresh, same]

/-- Only an unindexed key finds something new: an empty dictionary. -/
theorem find_getOrInsert (registry : EnumDictionaryRegistry) (key other : KeyId) (cap : Nat) :
    (registry.getOrInsert key cap).find other =
      if other = key ∧ registry.index key = none then some (.ofCap cap)
      else registry.find other := by
  unfold getOrInsert
  split
  · rename_i owner indexed
    simp [indexed]
  · rename_i fresh
    by_cases same : other = key
    · simp [find, create, fresh, same]
    · -- No other key can point at the new entry, since its key was not indexed.
      have apart : registry.index other ≠ some key := fun indexed => by
        obtain ⟨entry, held, -⟩ := registry.live other key indexed
        simp [dictionaries_eq_none fresh] at held
      cases indexed : registry.index other with
      | none => simp [find, create, same, indexed]
      | some owner =>
        have differs : owner ≠ key := fun equal => apart (by rw [indexed, equal])
        simp [find, create, same, indexed, Function.update_of_ne differs]

/-- Writing through a pointer moves no pointer. -/
@[simp] theorem index_write (registry : EnumDictionaryRegistry) (key other : KeyId)
    (dict : EnumDictionary) : (registry.write key dict).index other = registry.index other := by
  unfold write
  split <;> rfl

/-- A write is seen by exactly the keys that share the pointer. -/
theorem find_write (registry : EnumDictionaryRegistry) (key other : KeyId)
    (dict : EnumDictionary) :
    (registry.write key dict).find other =
      if registry.index other = registry.index key then (registry.find other).map fun _ => dict
      else registry.find other := by
  unfold write
  split
  · -- The key has no dictionary yet, so it gets one of its own.
    rename_i absent
    split
    · rename_i same
      simp [find, same, absent]
    · rfl
  · -- The dictionary of the key's owner changes, and with it that of every key it owns.
    rename_i owner indexed
    cases pointer : registry.index other with
    | none => simp [find, pointer]
    | some canonical =>
      obtain ⟨entry, held, -⟩ := registry.live other canonical pointer
      by_cases same : canonical = owner
      · subst same
        simp [find, pointer, held, indexed]
      · simp [find, pointer, held, indexed, same]

/-- Only an unindexed key joins a canonical key's dictionary; in any other case nothing changes. -/
theorem aliasTo_cases (registry : EnumDictionaryRegistry) (canonical key : KeyId) :
    ((registry.aliasTo canonical key).1 = registry ∧
      ¬(registry.index key = none ∧ (registry.dictionaries canonical).isSome)) ∨
      ∃ entry, ∃ (held : registry.dictionaries canonical = some entry)
        (fresh : registry.index key = none),
        (registry.aliasTo canonical key).1 = registry.join canonical key entry held fresh := by
  unfold aliasTo
  by_cases identity : canonical = key
  · -- A key that is not indexed has no dictionary of its own.
    subst identity
    rw [if_pos rfl]
    refine .inl ⟨rfl, fun both => ?_⟩
    rw [dictionaries_eq_none both.1] at both
    cases both.2
  · rw [if_neg identity]
    split
    · rename_i absent
      exact .inl ⟨rfl, fun both => by simp [absent] at both⟩
    · rename_i entry held
      split
      · rename_i owner indexed
        exact .inl ⟨rfl, fun both => by simp [indexed] at both⟩
      · rename_i fresh
        exact .inr ⟨entry, held, fresh, rfl⟩

/-- Only an unindexed key is aliased, to a live canonical key. -/
theorem index_aliasTo (registry : EnumDictionaryRegistry) (canonical key other : KeyId) :
    (registry.aliasTo canonical key).1.index other =
      if other = key ∧ registry.index key = none ∧ (registry.dictionaries canonical).isSome then
        some canonical
      else registry.index other := by
  rcases registry.aliasTo_cases canonical key with ⟨stays, refused⟩ | ⟨entry, held, fresh, joins⟩
  · rw [stays, if_neg fun aliased => refused aliased.2]
  · rw [joins]
    by_cases same : other = key <;> simp [join, same, fresh, held]

/-- An aliased key finds the canonical key's dictionary, and every other key what it found. -/
theorem find_aliasTo (registry : EnumDictionaryRegistry) (canonical key other : KeyId) :
    (registry.aliasTo canonical key).1.find other =
      if other = key ∧ registry.index key = none ∧ (registry.dictionaries canonical).isSome then
        registry.find canonical
      else registry.find other := by
  -- A refused alias changes nothing; a joined key points to the canonical one.
  rcases registry.aliasTo_cases canonical key with ⟨stays, refused⟩ | ⟨entry, held, fresh, joins⟩
  · rw [stays, if_neg fun aliased => refused aliased.2]
  · rw [joins]
    have own := index_of_dictionaries held
    by_cases same : other = key
    · simp [find, join, same, fresh, held, own]
    · cases pointer : registry.index other with
      | none => simp [find, join, same, pointer]
      | some owner =>
        by_cases shared : owner = canonical
        · simp [find, join, same, pointer, shared, held]
        · simp [find, join, same, pointer, Function.update_of_ne shared]

/-- Erasing a canonical key unindexes exactly the keys that pointed at it. -/
theorem index_erase (registry : EnumDictionaryRegistry) (canonical other : KeyId) :
    (registry.erase canonical).index other =
      if registry.index other = some canonical then none else registry.index other := by
  unfold erase
  split
  · -- Nothing is owned by this key, so no key points at it.
    rename_i absent
    have unused : registry.index other ≠ some canonical := fun indexed => by
      obtain ⟨entry, held, -⟩ := registry.live other canonical indexed
      simp [absent] at held
    simp [unused]
  · -- The keys that it owned are its aliases.
    rename_i entry held
    by_cases member : other ∈ entry.aliases
    · simp [member, registry.listed canonical entry other held member]
    · have unused : registry.index other ≠ some canonical := fun indexed => by
        obtain ⟨old, owned, lists⟩ := registry.live other canonical indexed
        have : entry = old := Option.some.inj (held.symm.trans owned)
        exact member (this ▸ lists)
      simp [member, unused]

/-- Erasing a canonical key hides its dictionary and no other. -/
theorem find_erase (registry : EnumDictionaryRegistry) (canonical other : KeyId) :
    (registry.erase canonical).find other =
      if registry.index other = some canonical then none else registry.find other := by
  by_cases pointed : registry.index other = some canonical
  · rw [if_pos pointed, find_eq_none_iff, index_erase, if_pos pointed]
  · -- Another owner keeps its dictionary.
    rw [if_neg pointed]
    have kept : (registry.erase canonical).index other = registry.index other := by
      rw [index_erase, if_neg pointed]
    unfold find
    rw [kept]
    cases indexed : registry.index other with
    | none => rfl
    | some owner =>
      have differs : owner ≠ canonical := fun same => pointed (by rw [indexed, same])
      unfold erase
      split
      · rfl
      · simp [Function.update_of_ne differs]

end EnumDictionaryRegistry

end Loglib
