import Mathlib

/-! Maps held as lists of entries with distinct keys, for maps whose iteration order has
no meaning. -/

namespace Loglib

/-- Values by key, each key once. -/
structure KeyedList (κ α : Type*) where
  entries : List (κ × α)
  distinct : (entries.map Prod.fst).Nodup

namespace KeyedList

variable {κ α : Type*}

/-- The map without entries. -/
def empty : KeyedList κ α := ⟨[], List.nodup_nil⟩

variable [DecidableEq κ]

/-- The value of a key. -/
def find (map : KeyedList κ α) (key : κ) : Option α := (map.entries.find? (·.1 = key)).map Prod.snd

/-- Replace the value of a key in place, or add an entry at the end. -/
def putIn (key : κ) (value : α) : List (κ × α) → List (κ × α)
  | [] => [(key, value)]
  | (held, old) :: rest =>
    if held = key then (key, value) :: rest else (held, old) :: putIn key value rest

/-- The keys after a put: the old ones, and the new one at the end unless it was there. -/
theorem keys_putIn (key : κ) (value : α) (entries : List (κ × α)) :
    (putIn key value entries).map Prod.fst =
      if key ∈ entries.map Prod.fst then entries.map Prod.fst
        else entries.map Prod.fst ++ [key] := by
  -- A key that is there is replaced in place, a new one goes to the end.
  induction entries with
  | nil => simp [putIn]
  | cons head rest ih =>
    obtain ⟨held, old⟩ := head
    unfold putIn
    by_cases same : held = key
    · simp [same]
    · rw [if_neg same, List.map_cons, ih]
      simp only [List.map_cons, List.mem_cons, Ne.symm same, false_or]
      split <;> rfl

/-- A put keeps the keys distinct. -/
theorem putIn_distinct (key : κ) (value : α) {entries : List (κ × α)}
    (distinct : (entries.map Prod.fst).Nodup) :
    ((putIn key value entries).map Prod.fst).Nodup := by
  rw [keys_putIn]
  split
  · exact distinct
  · rename_i fresh
    exact List.nodup_append.mpr ⟨distinct, List.nodup_singleton key, fun a listed b single same =>
      fresh ((List.mem_singleton.mp single) ▸ same ▸ listed)⟩

/-- Set the value of a key. -/
def put (map : KeyedList κ α) (key : κ) (value : α) : KeyedList κ α :=
  ⟨putIn key value map.entries, putIn_distinct key value map.distinct⟩

/-- Change every value. -/
def mapValues {κ α : Type*} (map : KeyedList κ α) (change : α → α) : KeyedList κ α :=
  ⟨map.entries.map fun entry => (entry.1, change entry.2), by rw [List.map_map]; exact map.distinct⟩

/-- Drop a key. -/
def erase (map : KeyedList κ α) (key : κ) : KeyedList κ α :=
  ⟨map.entries.filter (·.1 ≠ key), map.distinct.sublist (List.filter_sublist.map Prod.fst)⟩

/-- An entry of the map is what its key finds. -/
theorem mem_entries_iff {map : KeyedList κ α} {key : κ} {value : α} :
    (key, value) ∈ map.entries ↔ map.find key = some value := by
  obtain ⟨entries, distinct⟩ := map
  simp only [find, Option.map_eq_some_iff, Prod.exists]
  constructor
  · intro listed
    -- The first entry with the key is the entry, as no other has its key.
    cases found : entries.find? (·.1 = key) with
    | none =>
      have missed := List.find?_eq_none.mp found _ listed
      simp at missed
    | some entry =>
      have same : entry.1 = key := by simpa using List.find?_some found
      have unique := List.inj_on_of_nodup_map distinct (List.mem_of_find?_eq_some found) listed same
      exact ⟨key, value, by rw [unique], rfl⟩
  · rintro ⟨held, other, found, rfl⟩
    have same : held = key := by simpa using List.find?_some found
    exact same ▸ List.mem_of_find?_eq_some found

/-- Reading after a put: the new value at the key, the old ones elsewhere. -/
theorem find_put (map : KeyedList κ α) (key other : κ) (value : α) :
    (map.put key value).find other = if other = key then some value else map.find other := by
  obtain ⟨entries, distinct⟩ := map
  simp only [find, put]
  clear distinct
  induction entries with
  | nil =>
    by_cases same : other = key
    · simp [putIn, same]
    · simp [putIn, same, Ne.symm same]
  | cons head rest ih =>
    obtain ⟨held, old⟩ := head
    unfold putIn
    -- The head has the key, or the key is further behind.
    by_cases same : held = key
    · subst same
      by_cases asked : held = other
      · simp [asked]
      · simp [asked, Ne.symm asked]
    · rw [if_neg same]
      by_cases asked : held = other
      · subst asked
        simp [same]
      · simpa [asked] using ih

/-- Reading after an erasure: nothing at the key, the old values elsewhere. -/
theorem find_erase (map : KeyedList κ α) (key other : κ) :
    (map.erase key).find other = if other = key then none else map.find other := by
  apply Option.ext
  intro value
  rw [← mem_entries_iff]
  simp only [erase, List.mem_filter, decide_eq_true_eq, mem_entries_iff]
  by_cases same : other = key <;> simp [same]

/-- Reading after every value was changed. -/
theorem find_mapValues (map : KeyedList κ α) (change : α → α) (key : κ) :
    (map.mapValues change).find key = (map.find key).map change := by
  obtain ⟨entries, distinct⟩ := map
  simp only [find, mapValues, List.find?_map, Option.map_map]
  rfl

end KeyedList

end Loglib
