import Mathlib

/-! Interning tables: each distinct name gets the next free position, and keeps it. -/

namespace Loglib

/-- Distinct names, each identified by its position. -/
structure Interner (α : Type*) where
  names : List α
  distinct : names.Nodup

namespace Interner

section Positions

variable {α : Type*}

/-- The table without names. -/
def empty : Interner α := ⟨[], List.nodup_nil⟩

/-- The name at a position. -/
def get (table : Interner α) (id : Nat) : Option α := table.names[id]?

/-- The number of names. -/
def size (table : Interner α) : Nat := table.names.length

/-- Every position inside the table holds a name. -/
theorem get_of_lt {table : Interner α} {id : Nat} (bound : id < table.size) :
    ∃ name, table.get id = some name :=
  ⟨table.names.get ⟨id, bound⟩, List.getElem?_eq_getElem bound⟩

/-- A position that holds a name lies inside the table. -/
theorem lt_of_get {table : Interner α} {id : Nat} {name : α}
    (held : table.get id = some name) : id < table.size :=
  (List.getElem?_eq_some_iff.mp held).1

/-- Later tables keep every earlier position: the old names are a prefix of the new ones. -/
def Grows (old new : Interner α) : Prop := old.names <+: new.names

/-- Growth is reflexive. -/
@[refl] theorem Grows.refl (table : Interner α) : table.Grows table := List.prefix_refl _

/-- Growth is transitive. -/
theorem Grows.trans {first second third : Interner α}
    (left : first.Grows second) (right : second.Grows third) : first.Grows third :=
  List.IsPrefix.trans left right

/-- A position keeps its name under growth. -/
theorem Grows.get {old new : Interner α} (grows : old.Grows new) {id : Nat} {name : α}
    (held : old.get id = some name) : new.get id = some name := by
  obtain ⟨suffix, extended⟩ := grows
  have bound := lt_of_get held
  unfold Interner.get at held ⊢
  rw [← extended, List.getElem?_append_left bound, held]

/-- A table never shrinks under growth. -/
theorem Grows.size_le {old new : Interner α} (grows : old.Grows new) : old.size ≤ new.size :=
  List.IsPrefix.length_le grows

end Positions

section Lookup

variable {α : Type*} [DecidableEq α]

/-- The position of a name. -/
def find (table : Interner α) (name : α) : Option Nat := table.names.idxOf? name

/-- Finding a name and reading a position are inverse to each other. -/
theorem find_eq_some_iff {table : Interner α} {name : α} {id : Nat} :
    table.find name = some id ↔ table.get id = some name := by
  -- The names are distinct, so the first occurrence is the only one.
  unfold find get
  rw [List.idxOf?, List.findIdx?_eq_some_iff_getElem, List.getElem?_eq_some_iff]
  constructor
  · rintro ⟨bound, same, -⟩
    exact ⟨bound, by simpa using same⟩
  · rintro ⟨bound, same⟩
    refine ⟨bound, by simpa using same, fun earlier before => ?_⟩
    have differs : table.names[earlier] ≠ table.names[id] := fun equal =>
      (Nat.ne_of_lt before) ((table.distinct.getElem_inj_iff).mp equal)
    simpa [same] using differs

/-- A name has no position exactly when it is not in the table. -/
theorem find_eq_none_iff {table : Interner α} {name : α} :
    table.find name = none ↔ name ∉ table.names := by
  simp [find, List.idxOf?_eq_none_iff]

/-- A position that was found lies inside the table. -/
theorem find_lt_size {table : Interner α} {name : α} {id : Nat}
    (found : table.find name = some id) : id < table.size :=
  lt_of_get (find_eq_some_iff.mp found)

/-- Two names at one position are the same name. -/
theorem find_inj {table : Interner α} {first second : α} {id : Nat}
    (left : table.find first = some id) (right : table.find second = some id) :
    first = second := by
  have both := (find_eq_some_iff.mp left).symm.trans (find_eq_some_iff.mp right)
  simpa using both

/-- A name keeps its position under growth. -/
theorem Grows.find {old new : Interner α} (grows : old.Grows new) {id : Nat} {name : α}
    (found : old.find name = some id) : new.find name = some id :=
  find_eq_some_iff.mpr (grows.get (find_eq_some_iff.mp found))

/-- A new name goes to the end of the table. -/
def push (table : Interner α) (name : α) (fresh : table.find name = none) : Interner α where
  names := table.names ++ [name]
  distinct := by
    have absent := find_eq_none_iff.mp fresh
    refine List.nodup_append.mpr ⟨table.distinct, List.nodup_singleton name, ?_⟩
    rintro held member _ same rfl
    exact absent (by simpa [List.mem_singleton.mp same] using member)

/-- Pushing a name grows the table. -/
theorem push_grows (table : Interner α) (name : α) (fresh : table.find name = none) :
    table.Grows (table.push name fresh) := List.prefix_append _ _

/-- A pushed name takes the first free position. -/
theorem find_push_self (table : Interner α) (name : α) (fresh : table.find name = none) :
    (table.push name fresh).find name = some table.size := by
  rw [find_eq_some_iff]
  simp [push, get, size]

/-- Pushing a name moves no other name. -/
theorem find_push_of_ne (table : Interner α) {name other : α} (fresh : table.find name = none)
    (differs : other ≠ name) : (table.push name fresh).find other = table.find other := by
  cases found : table.find other with
  | some id => exact (table.push_grows name fresh).find found
  | none =>
    have absent := find_eq_none_iff.mp found
    rw [find_eq_none_iff]
    simp [push, absent, differs]

end Lookup

end Interner

end Loglib
