import Loglib.Table.EnumDictionaryRegistry

/-! Runs of registry operations: keys, alias groups and ids stay in step with each other. -/

namespace Loglib

/-- `EnumDictionary::Clear`: the values go, the cap stays. -/
def EnumDictionary.clear (dict : EnumDictionary) : EnumDictionary where
  values := .empty
  cap := dict.cap
  fits := EnumDictionary.empty_fits dict.cap
  bounded := dict.bounded

/-- A call on the registry, or on the dictionary that it returned for a key. -/
inductive RegistryOp where
  | getOrInsert (key : KeyId) (cap : Nat)
  | insert (key : KeyId) (text : Bytes)
  | aliasTo (canonical key : KeyId)
  | erase (canonical : KeyId)
  | clear
  | clearValues (key : KeyId)

namespace EnumDictionaryRegistry

/-- Insert the bytes into the dictionary of a key, and hand out their id. -/
def insert (registry : EnumDictionaryRegistry) (key : KeyId) (text : Bytes) :
    EnumDictionaryRegistry × Option EnumValueId :=
  match registry.find key with
  | none => (registry, none)
  | some dict =>
    let (dict, id) := dict.insert text
    (registry.write key dict, id)

/-- Clear the dictionary of a key. -/
def clearValues (registry : EnumDictionaryRegistry) (key : KeyId) : EnumDictionaryRegistry :=
  match registry.find key with
  | none => registry
  | some dict => registry.write key dict.clear

/-- One call. -/
def apply (registry : EnumDictionaryRegistry) : RegistryOp → EnumDictionaryRegistry
  | .getOrInsert key cap => registry.getOrInsert key cap
  | .insert key text => (registry.insert key text).1
  | .aliasTo canonical key => (registry.aliasTo canonical key).1
  | .erase canonical => registry.erase canonical
  | .clear => .empty
  | .clearValues key => registry.clearValues key

/-- Some calls, one after the other. -/
def applyAll (registry : EnumDictionaryRegistry) (ops : List RegistryOp) : EnumDictionaryRegistry :=
  ops.foldl apply registry

/-- The registry after some calls, from an empty one. -/
def run (ops : List RegistryOp) : EnumDictionaryRegistry := empty.applyAll ops

/-- The call takes nothing from the dictionary of a canonical key. -/
def Spares (registry : EnumDictionaryRegistry) (owner : KeyId) : RegistryOp → Prop
  | .erase canonical => canonical ≠ owner
  | .clear => False
  | .clearValues key => registry.index key ≠ some owner
  | _ => True

/-- None of the calls takes anything from the dictionary of a canonical key. -/
def SparedBy (registry : EnumDictionaryRegistry) (owner : KeyId) : List RegistryOp → Prop
  | [] => True
  | op :: ops => registry.Spares owner op ∧ (registry.apply op).SparedBy owner ops

/-- What keys, alias groups and ids of a registry have to do with each other. -/
structure Consistent (registry : EnumDictionaryRegistry) : Prop where
  /-- A key of the index points at a live dictionary, which lists the key. -/
  live : ∀ key canonical, registry.index key = some canonical →
    ∃ entry, registry.dictionaries canonical = some entry ∧ key ∈ entry.aliases
  /-- All keys that a dictionary lists find that dictionary. -/
  shared : ∀ canonical entry key, registry.dictionaries canonical = some entry →
    key ∈ entry.aliases →
    registry.find key = some entry.dict
  /-- The ids of a dictionary are those below its size. -/
  dense : ∀ key dict id, registry.find key = some dict →
    (id < dict.size ↔ ∃ text, dict.find text = some id)
  findsResolved : ∀ key dict id, registry.find key = some dict → id < dict.size →
    dict.find (dict.resolve id) = some id
  resolvesFound : ∀ key dict text id, registry.find key = some dict → dict.find text = some id →
    dict.resolve id = text

/-- Every registry is consistent, because its fields are. -/
theorem consistent (registry : EnumDictionaryRegistry) : registry.Consistent where
  live := registry.live
  shared canonical entry key held member := by
    -- A listed key points at the canonical key, which finds the entry.
    have indexed := registry.listed canonical entry key held member
    rw [find, indexed, Option.bind_some, held, Option.map_some]
  dense key dict id _ := by
    constructor
    · intro inside
      exact ⟨dict.resolve id, EnumDictionary.find_resolve inside⟩
    · rintro ⟨text, found⟩
      exact EnumDictionary.find_lt_size found
  findsResolved _ _ _ _ inside := EnumDictionary.find_resolve inside
  resolvesFound _ _ _ _ _ found := EnumDictionary.resolve_of_find found

section Steps

variable {registry : EnumDictionaryRegistry} {owner key : KeyId} {dict : EnumDictionary}

/-- A write to another dictionary, or of a later version of this one, keeps what a key finds. -/
theorem find_write_grows (found : registry.find key = some dict) {other : KeyId}
    {written : EnumDictionary}
    (grows : registry.index key = registry.index other → dict.Grows written) :
    ∃ later, (registry.write other written).find key = some later ∧ dict.Grows later := by
  rw [find_write]
  by_cases same : registry.index key = registry.index other
  · rw [if_pos same, found]
    exact ⟨written, rfl, grows same⟩
  · rw [if_neg same]
    exact ⟨dict, found, .refl dict⟩

/-- A call that spares a dictionary moves no pointer at it. -/
theorem index_apply (indexed : registry.index key = some owner) {op : RegistryOp}
    (spares : registry.Spares owner op) :
    (registry.apply op).index key = some owner := by
  -- A key that has an owner is not taken by another.
  have taken : registry.index key ≠ none := by
    rw [indexed]
    exact Option.some_ne_none owner
  cases op with
  | getOrInsert other cap =>
    show (registry.getOrInsert other cap).index key = _
    rw [index_getOrInsert, if_neg]
    · exact indexed
    · rintro ⟨rfl, absent⟩
      exact taken absent
  | insert other text =>
    show (registry.insert other text).1.index key = _
    unfold insert
    split
    · exact indexed
    · exact (index_write ..).trans indexed
  | aliasTo canonical other =>
    show (registry.aliasTo canonical other).1.index key = _
    rw [index_aliasTo, if_neg]
    · exact indexed
    · rintro ⟨rfl, absent, -⟩
      exact taken absent
  -- Only erasing the owner would free the key.
  | erase canonical =>
    show (registry.erase canonical).index key = _
    rw [index_erase, if_neg]
    · exact indexed
    · rw [indexed]
      exact fun same => spares (Option.some.inj same).symm
  | clear => exact spares.elim
  | clearValues other =>
    show (registry.clearValues other).index key = _
    unfold clearValues
    split
    · exact indexed
    · exact (index_write ..).trans indexed

/-- A call that spares a dictionary keeps all of its ids. -/
theorem find_apply (indexed : registry.index key = some owner)
    (found : registry.find key = some dict) {op : RegistryOp}
    (spares : registry.Spares owner op) :
    ∃ later, (registry.apply op).find key = some later ∧ dict.Grows later := by
  have taken : registry.index key ≠ none := by
    rw [indexed]
    exact Option.some_ne_none owner
  have same {next : Option EnumDictionary} (kept : next = registry.find key) :
      ∃ later, next = some later ∧ dict.Grows later := ⟨dict, kept.trans found, .refl dict⟩
  cases op with
  | getOrInsert other cap =>
    refine same ((find_getOrInsert ..).trans (if_neg ?_))
    rintro ⟨rfl, absent⟩
    exact taken absent
  | insert other text =>
    show ∃ later, (registry.insert other text).1.find key = some later ∧ _
    unfold insert
    split
    · exact same rfl
    · rename_i written target
      -- The same pointer means the same dictionary, and that one grows.
      refine find_write_grows found fun shared => ?_
      have equal : some dict = some written :=
        found.symm.trans ((find_eq_of_index_eq shared).trans target)
      rw [Option.some.inj equal]
      exact written.insert_grows text
  | aliasTo canonical other =>
    refine same ((find_aliasTo ..).trans (if_neg ?_))
    rintro ⟨rfl, absent, -⟩
    exact taken absent
  | erase canonical =>
    refine same ((find_erase ..).trans (if_neg ?_))
    rw [indexed]
    exact fun equal => spares (Option.some.inj equal).symm
  | clear => exact spares.elim
  | clearValues other =>
    show ∃ later, (registry.clearValues other).find key = some later ∧ _
    unfold clearValues
    split
    · exact same rfl
    · refine find_write_grows found fun shared => ?_
      exact absurd (shared.symm.trans indexed) spares

end Steps

/-- Calls that spare a dictionary keep the pointers at it, and its ids. -/
theorem applyAll_spared {registry : EnumDictionaryRegistry} {owner key : KeyId}
    {dict : EnumDictionary}
    (indexed : registry.index key = some owner) (found : registry.find key = some dict)
    {ops : List RegistryOp}
    (spared : registry.SparedBy owner ops) :
    (registry.applyAll ops).index key = some owner ∧
      ∃ later, (registry.applyAll ops).find key = some later ∧ dict.Grows later := by
  -- The induction is on the calls; growth is transitive.
  induction ops generalizing registry dict with
  | nil => exact ⟨indexed, dict, found, .refl dict⟩
  | cons op ops ih =>
    obtain ⟨now, found, grows⟩ := find_apply indexed found spared.1
    obtain ⟨points, later, finds, more⟩ := ih (index_apply indexed spared.1) found spared.2
    exact ⟨points, later, finds, grows.trans more⟩

/-- An accepted alias shares the dictionary of its canonical key. -/
theorem aliasTo_shares {registry : EnumDictionaryRegistry} {canonical key : KeyId}
    (accepted : (registry.aliasTo canonical key).2 = true) :
    (registry.aliasTo canonical key).1.find key = (registry.aliasTo canonical key).1.find
      canonical := by
  by_cases identity : canonical = key
  · rw [identity]
  · apply find_eq_of_index_eq
    unfold aliasTo at accepted ⊢
    rw [if_neg identity] at accepted ⊢
    split at accepted
    · exact absurd accepted Bool.false_ne_true
    · rename_i entry held
      have own := index_of_dictionaries held
      split at accepted
      · -- The key was an alias already, of this canonical key or of another.
        rename_i owner indexed
        obtain rfl := of_decide_eq_true accepted
        exact indexed.trans own.symm
      · simp [join, own, identity]

/-- An id that was handed out is the id that the bytes are found by. -/
theorem insert_finds {registry : EnumDictionaryRegistry} {key : KeyId} {text : Bytes}
    {id : EnumValueId}
    (given : (registry.insert key text).2 = some id) :
    ∃ dict, (registry.insert key text).1.find key = some dict ∧ dict.find text = some id := by
  unfold insert at given ⊢
  split at given
  · exact absurd given.symm (Option.some_ne_none id)
  · rename_i dict found
    refine ⟨(dict.insert text).1, ?_, EnumDictionary.find_of_insert given⟩
    -- The dictionary is written back under the key's owner.
    show (registry.write key _).find key = _
    rw [find_write, if_pos rfl, found]
    rfl

/-- After any calls the registry is consistent; an alias that went through shares its canonical
key's dictionary; ids handed out stay, unless their dictionary is erased or cleared; and an erasure
is only seen by the keys that shared the erased dictionary. -/
theorem run_consistent (ops : List RegistryOp) :
    (run ops).Consistent ∧
    (∀ canonical key, ((run ops).aliasTo canonical key).2 = true →
      ((run ops).aliasTo canonical key).1.find key = ((run ops).aliasTo canonical key).1.find
        canonical) ∧
    (∀ key text id, ((run ops).insert key text).2 = some id →
      ∃ dict, ((run ops).insert key text).1.find key = some dict ∧ dict.find text = some id) ∧
    (∀ more key owner dict, (run ops).index key = some owner → (run ops).find key = some dict →
      (run ops).SparedBy owner more →
        (run (ops ++ more)).index key = some owner ∧
        ∃ later, (run (ops ++ more)).find key = some later ∧
          ∀ text id, dict.find text = some id →
            later.find text = some id ∧ later.resolve id = text) ∧
    ∀ key other, (run ops).index other ≠ some key →
      ((run ops).erase key).find other = (run ops).find other := by
  refine ⟨consistent _, ?_, ?_, ?_, ?_⟩
  · intro canonical key accepted
    exact aliasTo_shares accepted
  · intro key text id given
    exact insert_finds given
  · -- The later operations spare the owner, so its dictionary only grows.
    intro more key owner dict indexed found spared
    have whole : run (ops ++ more) = (run ops).applyAll more := List.foldl_append
    obtain ⟨points, later, finds, grows⟩ := applyAll_spared indexed found spared
    rw [whole]
    refine ⟨points, later, finds, fun text id held => ?_⟩
    have kept : later.find text = some id := Interner.Grows.find grows held
    exact ⟨kept, EnumDictionary.resolve_of_find kept⟩
  · intro key other apart
    rw [find_erase, if_neg apart]

/-- Erasing a canonical key takes the dictionary from its aliases too. -/
theorem erase_hidesAlias :
    ¬∀ ops key other, other ≠ key → ((run ops).erase key).find other = (run ops).find other := by
  intro kept
  have found : (run [.getOrInsert 0 64, .aliasTo 0 1]).find 1 = some (.ofCap 64) := by rfl
  have gone : ((run [.getOrInsert 0 64, .aliasTo 0 1]).erase 0).find 1 = none := by rfl
  have same := kept [.getOrInsert 0 64, .aliasTo 0 1] 0 1 (by decide)
  rw [found, gone] at same
  exact absurd same.symm (Option.some_ne_none _)

end EnumDictionaryRegistry

end Loglib
