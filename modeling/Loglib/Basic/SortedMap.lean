import Mathlib

/-! Maps held as lists in strictly ascending key order, searched with an early bail. -/

namespace Loglib

/-- Entries in strictly ascending key order. -/
structure SortedMap (κ α : Type*) [LT κ] where
  entries : List (κ × α)
  sorted : entries.Pairwise fun first second => first.1 < second.1

namespace SortedMap

variable {κ α : Type*} [LinearOrder κ]

/-- The map without entries. -/
def empty : SortedMap κ α := ⟨[], List.Pairwise.nil⟩

/-- Linear search that stops at the first larger key. -/
def lookupIn (key : κ) : List (κ × α) → Option α
  | [] => none
  | (held, value) :: rest =>
    if held = key then some value else if key < held then none else lookupIn key rest

/-- Replace the value of a key, or insert it before the first larger key. -/
def putIn (key : κ) (value : α) : List (κ × α) → List (κ × α)
  | [] => [(key, value)]
  | (held, old) :: rest =>
    if held < key then (held, old) :: putIn key value rest
    else if held = key then (key, value) :: rest
    else (key, value) :: (held, old) :: rest

/-- Every key of an extended list is an old key or the new one. -/
theorem mem_putIn {key : κ} {value : α} {entries : List (κ × α)} {entry : κ × α}
    (member : entry ∈ putIn key value entries) : entry.1 = key ∨ entry ∈ entries := by
  induction entries with
  | nil => simp_all [putIn]
  | cons head rest ih =>
    rcases head with ⟨held, old⟩
    simp only [putIn] at member
    -- The new entry goes in front of a larger key, in place of its own, or further behind.
    split at member
    · rcases List.mem_cons.mp member with rfl | later
      · exact .inr (List.mem_cons_self ..)
      · exact (ih later).imp_right (List.mem_cons_of_mem _)
    · split at member
      · rcases List.mem_cons.mp member with rfl | later
        · exact .inl rfl
        · exact .inr (List.mem_cons_of_mem _ later)
      · rcases List.mem_cons.mp member with rfl | later
        · exact .inl rfl
        · exact .inr later

/-- Putting a value keeps the keys in strictly ascending order. -/
theorem putIn_sorted {entries : List (κ × α)} (key : κ) (value : α)
    (sorted : entries.Pairwise fun first second => first.1 < second.1) :
    (putIn key value entries).Pairwise fun first second => first.1 < second.1 := by
  induction entries with
  | nil => simp [putIn]
  | cons head rest ih =>
    rcases head with ⟨held, old⟩
    have below := (List.pairwise_cons.mp sorted).1
    have tail := (List.pairwise_cons.mp sorted).2
    simp only [putIn]
    -- A smaller key stays first, and the new one is sorted in behind it.
    split
    · rename_i less
      refine List.pairwise_cons.mpr ⟨fun entry member => ?_, ih tail⟩
      rcases mem_putIn member with same | old
      · rw [same]; exact less
      · exact below entry old
    · rename_i notLess
      -- The key is there, so only its value changes.
      split
      · rename_i same
        subst same
        -- The new key is smaller than all the others.
        exact List.pairwise_cons.mpr ⟨below, tail⟩
      · rename_i differs
        have greater : key < held := lt_of_le_of_ne (not_lt.mp notLess) (Ne.symm differs)
        refine List.pairwise_cons.mpr ⟨fun entry member => ?_, sorted⟩
        rcases List.mem_cons.mp member with rfl | later
        · exact greater
        · exact greater.trans (below entry later)

/-- Reading after a put: the new value at the key, the old ones elsewhere. -/
theorem lookupIn_putIn (key other : κ) (value : α) (entries : List (κ × α)) :
    lookupIn other (putIn key value entries) =
      if other = key then some value else lookupIn other entries := by
  -- Three ways for the head to compare with the key, and each reads on as before.
  induction entries with
  | nil =>
    by_cases same : other = key
    · simp [putIn, lookupIn, same]
    · simp [putIn, lookupIn, same, Ne.symm same]
  | cons head rest ih =>
    rcases head with ⟨held, old⟩
    simp only [putIn]
    split
    · rename_i less
      simp only [lookupIn, ih]
      by_cases same : other = key
      · subst same
        simp [less.ne, less.not_gt]
      · simp [same]
    · rename_i notLess
      split
      · rename_i equal
        subst equal
        by_cases same : other = held
        · subst same; simp [lookupIn]
        · simp [lookupIn, same, Ne.symm same]
      · rename_i differs
        have greater : key < held := lt_of_le_of_ne (not_lt.mp notLess) (Ne.symm differs)
        by_cases same : other = key
        · subst same; simp [lookupIn]
        · by_cases before : other < key
          · have far : other < held := before.trans greater
            simp [lookupIn, same, Ne.symm same, before, far, far.ne']
          · simp [lookupIn, same, Ne.symm same, before]

/-- The value of a key. -/
def lookup (map : SortedMap κ α) (key : κ) : Option α := lookupIn key map.entries

/-- Set the value of a key. -/
def put (map : SortedMap κ α) (key : κ) (value : α) : SortedMap κ α :=
  ⟨putIn key value map.entries, putIn_sorted key value map.sorted⟩

/-- Reading after a put: the new value at the key, the old ones elsewhere. -/
theorem lookup_put (map : SortedMap κ α) (key other : κ) (value : α) :
    (map.put key value).lookup other = if other = key then some value else map.lookup other :=
  lookupIn_putIn key other value map.entries

/-- A key that has a value is one of the keys. -/
theorem mem_of_lookupIn {entries : List (κ × α)} {key : κ} {value : α}
    (found : lookupIn key entries = some value) : (key, value) ∈ entries := by
  induction entries with
  | nil => simp [lookupIn] at found
  | cons head rest ih =>
    obtain ⟨held, old⟩ := head
    simp only [lookupIn] at found
    -- The search stops at the key, or in front of a greater one.
    split at found
    · rename_i same
      obtain rfl := Option.some.inj found
      exact same ▸ List.mem_cons_self
    · split at found
      · cases found
      · exact List.mem_cons_of_mem _ (ih found)

/-- A held entry is what its key finds. -/
theorem lookup_eq_some_iff {map : SortedMap κ α} {key : κ} {value : α} :
    map.lookup key = some value ↔ (key, value) ∈ map.entries := by
  refine ⟨mem_of_lookupIn, fun member => ?_⟩
  obtain ⟨entries, sorted⟩ := map
  show lookupIn key entries = some value
  induction entries with
  | nil => cases member
  | cons head rest ih =>
    obtain ⟨held, old⟩ := head
    obtain ⟨greater, sorted⟩ := List.pairwise_cons.mp sorted
    rw [lookupIn]
    obtain same | later := List.mem_cons.mp member
    · obtain ⟨rfl, rfl⟩ := Prod.mk.inj same
      rw [if_pos rfl]
    · -- A later key is larger, so the search does not stop in front of it.
      have less : held < key := greater _ later
      rw [if_neg less.ne, if_neg less.not_gt]
      exact ih sorted later

/-- A key has one entry. -/
theorem entry_unique (map : SortedMap κ α) {first second : κ × α} (left : first ∈ map.entries)
    (right : second ∈ map.entries)
    (same : first.1 = second.1) : first = second := by
  have found : map.lookup first.1 = some first.2 := lookup_eq_some_iff.mpr left
  rw [same, lookup_eq_some_iff.mpr right] at found
  exact Prod.ext same (Option.some.inj found).symm

/-- Replacing a value adds no key. -/
theorem mem_put_of_lookup {map : SortedMap κ α} {key : κ} {old : α}
    (found : map.lookup key = some old)
    {value : α} {entry : κ × α} (member : entry ∈ (map.put key value).entries) :
    ∃ before ∈ map.entries, before.1 = entry.1 := by
  rcases mem_putIn member with same | there
  · exact ⟨(key, old), mem_of_lookupIn found, same.symm⟩
  · exact ⟨entry, there, rfl⟩

/-- Every value changed, under the same keys. -/
def mapValues {β : Type*} (map : SortedMap κ α) (change : α → β) : SortedMap κ β :=
  ⟨map.entries.map fun entry => (entry.1, change entry.2), List.pairwise_map.mpr map.sorted⟩

/-- Reading a changed map. -/
theorem lookup_mapValues {β : Type*} (map : SortedMap κ α) (change : α → β) (key : κ) :
    (map.mapValues change).lookup key = (map.lookup key).map change := by
  obtain ⟨entries, sorted⟩ := map
  show lookupIn key (entries.map fun entry => (entry.1, change entry.2)) =
    (lookupIn key entries).map change
  clear sorted
  induction entries with
  | nil => rfl
  | cons head rest ih =>
    simp only [List.map_cons, lookupIn, ih]
    -- The keys stay, so the search takes the same way.
    split
    · rfl
    · split <;> rfl

/-- The entries below a key. -/
def below (map : SortedMap κ α) (key : κ) : List (κ × α) := map.entries.filter (·.1 < key)

/-- The entries above a key. -/
def above (map : SortedMap κ α) (key : κ) : List (κ × α) := map.entries.filter (key < ·.1)

/-- Drop a key. -/
def erase (map : SortedMap κ α) (key : κ) : SortedMap κ α :=
  ⟨map.entries.filter (·.1 ≠ key), map.sorted.filter _⟩

/-- Behind the first entry that is not below the key there are only entries above it. -/
theorem filter_of_forall_lt {key : κ} {entries : List (κ × α)}
    (greater : ∀ entry ∈ entries, key < entry.1) :
    entries.filter (·.1 < key) = [] ∧ entries.filter (key < ·.1) = entries ∧
      entries.filter (·.1 ≠ key) = entries := by
  refine ⟨List.filter_eq_nil_iff.mpr fun entry member => ?_,
    List.filter_eq_self.mpr fun entry member => ?_,
    List.filter_eq_self.mpr fun entry member => ?_⟩
  · simpa using (greater entry member).le
  · simpa using greater entry member
  · simpa using (greater entry member).ne'

/-- A map by the entries below a key, at it and above it, and after a put and an erasure. -/
theorem split_at (map : SortedMap κ α) (key : κ) :
    map.entries = map.below key ++ ((map.lookup key).toList.map (key, ·) ++ map.above key) ∧
      (∀ value, (map.put key value).entries = map.below key ++ (key, value) :: map.above key) ∧
      (map.erase key).entries = map.below key ++ map.above key := by
  obtain ⟨entries, sorted⟩ := map
  simp only [below, above, lookup, put, erase]
  -- The induction is on the entries; the tail of an entry at or above the key lies above it.
  induction entries with
  | nil => simp [lookupIn, putIn]
  | cons head rest ih =>
    obtain ⟨held, old⟩ := head
    have behind := (List.pairwise_cons.mp sorted).1
    rcases lt_trichotomy held key with less | same | greater
    · obtain ⟨whole, puts, erased⟩ := ih (List.pairwise_cons.mp sorted).2
      have skips : lookupIn key ((held, old) :: rest) = lookupIn key rest := by
        rw [lookupIn, if_neg less.ne, if_neg less.not_gt]
      refine ⟨?_, fun value => ?_, ?_⟩
      · rw [skips, List.filter_cons_of_pos (by simpa using less),
          List.filter_cons_of_neg (by simpa using less.le),
          List.cons_append, ← whole]
      · rw [putIn, if_pos less, List.filter_cons_of_pos (by simpa using less),
          List.filter_cons_of_neg (by simpa using less.le), List.cons_append, puts value]
      · rw [List.filter_cons_of_pos (by simpa using less.ne),
          List.filter_cons_of_pos (by simpa using less),
          List.filter_cons_of_neg (by simpa using less.le), List.cons_append, erased]
    · subst same
      obtain ⟨none_, all, others⟩ := filter_of_forall_lt fun entry member => behind entry member
      refine ⟨?_, fun value => ?_, ?_⟩
      · simp [lookupIn, none_, all]
      · simp [putIn, none_, all]
      · rw [List.filter_cons_of_neg (by simp), List.filter_cons_of_neg (by simp),
          List.filter_cons_of_neg (by simp),
          none_, all, others]
        rfl
    · have beyond : ∀ entry ∈ rest, key < entry.1 :=
        fun entry member => greater.trans (behind entry member)
      obtain ⟨none_, all, others⟩ := filter_of_forall_lt beyond
      refine ⟨?_, fun value => ?_, ?_⟩
      · simp [lookupIn, greater.ne', greater, greater.le, none_, all]
      · simp [putIn, greater.ne', greater, greater.not_gt, none_, all]
      · rw [List.filter_cons_of_pos (by simpa using greater.ne'),
          List.filter_cons_of_neg (by simpa using greater.le),
          List.filter_cons_of_pos (by simpa using greater), none_, all, others]
        rfl

/-- Dropping a key that is not there changes nothing. -/
theorem erase_of_lookup_none {map : SortedMap κ α} {key : κ} (absent : map.lookup key = none) :
    map.erase key = map := by
  have split := map.split_at key
  rw [absent] at split
  -- Without the key nothing is taken out.
  have same : (map.erase key).entries = map.entries := split.2.2.trans split.1.symm
  cases erased : map.erase key with
  | mk entries sorted =>
    rw [erased] at same
    subst same
    rfl

end SortedMap

end Loglib
