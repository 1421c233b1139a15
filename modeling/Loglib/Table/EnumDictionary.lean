import Mathlib
import Loglib.Table.KeyIndex

/-! Per-column dictionaries of enumeration values, and the registry that shares them
between keys. -/

namespace Loglib

/-- Dense value id inside one dictionary. `INVALID_ENUM_VALUE_ID` is `none` where it may occur. -/
abbrev EnumValueId := Nat

/-- Hard upper bound on the values of one dictionary. -/
def maxEnumValues : Nat := 1024

/-- Cap of a dictionary that was not given one. -/
def defaultEnumValueCap : Nat := 64

/-- Longest value still accepted by default. -/
def maxEnumCandidateLen : Nat := 64

/-- `std::clamp(cap, 1, MAX_ENUM_VALUES)`. -/
def clampCap (cap : Nat) : Nat := max 1 (min cap maxEnumValues)

/-- Distinct values by id, never more than the cap. -/
structure EnumDictionary where
  values : Interner Bytes
  cap : Nat
  fits : values.size ≤ cap
  bounded : cap ≤ maxEnumValues

namespace EnumDictionary

/-- The empty table fits under every cap. -/
theorem empty_fits (cap : Nat) : (Interner.empty : Interner Bytes).size ≤ cap := by
  simp [Interner.empty, Interner.size]

/-- A clamped cap respects the hard bound. -/
theorem clampCap_le (cap : Nat) : clampCap cap ≤ maxEnumValues := by
  unfold clampCap maxEnumValues
  omega

/-- An empty dictionary with a clamped cap. -/
def ofCap (cap : Nat) : EnumDictionary where
  values := .empty
  cap := clampCap cap
  fits := empty_fits (clampCap cap)
  bounded := clampCap_le cap

/-- Number of values. -/
def size (dict : EnumDictionary) : Nat := dict.values.size

/-- The cap is reached. -/
def full (dict : EnumDictionary) : Bool := dict.cap ≤ dict.size

/-- Existing id of the bytes. -/
def find (dict : EnumDictionary) (text : Bytes) : Option EnumValueId := dict.values.find text

/-- Bytes of an id, or empty if out of range. -/
def resolve (dict : EnumDictionary) (id : EnumValueId) : Bytes := (dict.values.get id).getD []

/-- A dictionary with room fits one more value. -/
theorem push_fits (dict : EnumDictionary) (text : Bytes) (fresh : dict.values.find text = none)
    (room : dict.full = false) : (dict.values.push text fresh).size ≤ dict.cap := by
  have below : ¬dict.cap ≤ dict.values.size := of_decide_eq_false room
  have length : (dict.values.push text fresh).size = dict.values.size + 1 := by
    simp [Interner.push, Interner.size]
  omega

/-- A new value goes to the end of a dictionary with room. -/
def push (dict : EnumDictionary) (text : Bytes) (fresh : dict.values.find text = none)
    (room : dict.full = false) : EnumDictionary where
  values := dict.values.push text fresh
  cap := dict.cap
  fits := push_fits dict text fresh room
  bounded := dict.bounded

/-- Id of the bytes, allocating one on first sight; `none` when full and the bytes are new. -/
def insert (dict : EnumDictionary) (text : Bytes) : EnumDictionary × Option EnumValueId :=
  match fresh : dict.values.find text with
  | some existing => (dict, some existing)
  | none =>
    match room : dict.full with
    | true => (dict, none)
    | false => (dict.push text fresh room, some dict.size)

/-- Later dictionaries keep every id. -/
def Grows (old new : EnumDictionary) : Prop := old.values.Grows new.values

/-- Growth is reflexive. -/
@[refl] theorem Grows.refl (dict : EnumDictionary) : dict.Grows dict := Interner.Grows.refl _

/-- Growth is transitive. -/
theorem Grows.trans {first second third : EnumDictionary} (left : first.Grows second)
    (right : second.Grows third) : first.Grows third := Interner.Grows.trans left right

/-- An id inside the dictionary resolves to the same bytes under growth. -/
theorem Grows.resolve {old new : EnumDictionary} (grows : old.Grows new) {id : EnumValueId}
    (bound : id < old.size) : new.resolve id = old.resolve id := by
  obtain ⟨text, held⟩ := Interner.get_of_lt bound
  simp [EnumDictionary.resolve, held, Interner.Grows.get grows held]

/-- A dictionary never shrinks under growth. -/
theorem Grows.size_le {old new : EnumDictionary} (grows : old.Grows new) : old.size ≤ new.size :=
  Interner.Grows.size_le grows

/-- A resolved id inside the dictionary finds itself again. -/
theorem find_resolve {dict : EnumDictionary} {id : EnumValueId} (bound : id < dict.size) :
    dict.find (dict.resolve id) = some id := by
  obtain ⟨text, held⟩ := Interner.get_of_lt bound
  simpa [find, resolve, held] using Interner.find_eq_some_iff.mpr held

/-- Two ids of a dictionary with the same bytes are the same id. -/
theorem resolve_inj {dict : EnumDictionary} {a b : EnumValueId} (inA : a < dict.size)
    (inB : b < dict.size) (same : dict.resolve a = dict.resolve b) : a = b := by
  have found := find_resolve inA
  rw [same, find_resolve inB] at found
  exact (Option.some.inj found).symm

/-- A found id resolves to the bytes it was found by. -/
theorem resolve_of_find {dict : EnumDictionary} {text : Bytes} {id : EnumValueId}
    (found : dict.find text = some id) : dict.resolve id = text := by
  simp [resolve, Interner.find_eq_some_iff.mp found]

/-- A found id lies inside the dictionary. -/
theorem find_lt_size {dict : EnumDictionary} {text : Bytes} {id : EnumValueId}
    (found : dict.find text = some id) : id < dict.size := Interner.find_lt_size found

/-- The three outcomes of an insertion: already there, no room, or appended. -/
theorem insert_cases (dict : EnumDictionary) (text : Bytes) :
    (∃ id, dict.find text = some id ∧ dict.insert text = (dict, some id)) ∨
    (dict.find text = none ∧ dict.full = true ∧ dict.insert text = (dict, none)) ∨
    (∃ (fresh : dict.values.find text = none) (room : dict.full = false),
      dict.insert text = (dict.push text fresh room, some dict.size)) := by
  unfold insert
  -- Known, full, or pushed.
  split
  · rename_i existing found
    exact .inl ⟨existing, found, rfl⟩
  · rename_i fresh
    split
    · rename_i noRoom
      exact .inr (.inl ⟨fresh, noRoom, rfl⟩)
    · rename_i room
      exact .inr (.inr ⟨fresh, room, rfl⟩)

/-- Inserting grows the dictionary, whether or not it is full. -/
theorem insert_grows (dict : EnumDictionary) (text : Bytes) :
    dict.Grows (dict.insert text).1 := by
  rcases dict.insert_cases text with ⟨id, -, same⟩ | ⟨-, -, same⟩ | ⟨fresh, room, pushed⟩
  · rw [same]
  · rw [same]
  · rw [pushed]
    exact dict.values.push_grows text fresh

/-- An id handed out for the bytes is the id they are found by. -/
theorem find_of_insert {dict : EnumDictionary} {text : Bytes} {id : EnumValueId}
    (given : (dict.insert text).2 = some id) : (dict.insert text).1.find text = some id := by
  -- The id is the one it had, or the new one.
  rcases dict.insert_cases text with ⟨held, found, same⟩ | ⟨-, -, same⟩ | ⟨fresh, room, pushed⟩
  · rw [same] at given ⊢
    exact found.trans given
  · simp [same] at given
  · rw [pushed] at given ⊢
    rw [← given]
    exact dict.values.find_push_self text fresh

/-- A value of the new dictionary was there before or is the inserted one. -/
theorem mem_insert {dict : EnumDictionary} {text other : Bytes}
    (member : other ∈ (dict.insert text).1.values.names) :
    other ∈ dict.values.names ∨ other = text := by
  rcases dict.insert_cases text with ⟨held, found, same⟩ | ⟨-, -, same⟩ | ⟨fresh, room, pushed⟩
  · exact .inl (by simpa [same] using member)
  · exact .inl (by simpa [same] using member)
  · simpa [pushed, push, Interner.push] using member

end EnumDictionary

end Loglib
