import Loglib.Basic.Bytes
import Loglib.Basic.Interner

/-! The key index: every field name of a session has one id, handed out in order of first use. -/

namespace Loglib

/-- Identifier of a field name. `INVALID_KEY_ID` is `none` wherever an id may be missing. -/
abbrev KeyId := Nat

/-- Field names by id. The shards of the source split one name map, so they hold nothing more. -/
structure KeyIndex where
  reverse : Interner Bytes

namespace KeyIndex

/-- The index of a fresh session. -/
def empty : KeyIndex := ⟨.empty⟩

/-- The id of a key, `none` for `INVALID_KEY_ID`. -/
def find (index : KeyIndex) (key : Bytes) : Option KeyId := index.reverse.find key

/-- The key with an id. -/
def keyOf (index : KeyIndex) (id : KeyId) : Option Bytes := index.reverse.get id

/-- Number of registered keys. -/
def size (index : KeyIndex) : Nat := index.reverse.size

/-- The id of a key, handing out the next one on first sight. -/
def getOrInsert (index : KeyIndex) (key : Bytes) : KeyIndex × KeyId :=
  match found : index.reverse.find key with
  | some id => (index, id)
  | none => (⟨index.reverse.push key found⟩, index.reverse.size)

/-- Later key indexes keep every id. -/
def Grows (old new : KeyIndex) : Prop := old.reverse.Grows new.reverse

/-- Growth is reflexive. -/
@[refl] theorem Grows.refl (index : KeyIndex) : index.Grows index := Interner.Grows.refl _

/-- Growth is transitive. -/
theorem Grows.trans {first second third : KeyIndex} (left : first.Grows second)
    (right : second.Grows third) : first.Grows third := Interner.Grows.trans left right

/-- A registered key keeps its id under growth. -/
theorem Grows.find {old new : KeyIndex} (grows : old.Grows new) {key : Bytes} {id : KeyId}
    (found : old.find key = some id) : new.find key = some id := Interner.Grows.find grows found

/-- Two keys with one id are the same key. -/
theorem find_inj {index : KeyIndex} {first second : Bytes} {id : KeyId}
    (left : index.find first = some id) (right : index.find second = some id) : first = second :=
  Interner.find_inj left right

/-- Inserting a key grows the index. -/
theorem getOrInsert_grows (index : KeyIndex) (key : Bytes) :
    index.Grows (index.getOrInsert key).1 := by
  unfold getOrInsert
  split
  · exact Grows.refl index
  · rename_i fresh
    exact index.reverse.push_grows key fresh

/-- The returned id is the key's id from then on. -/
@[simp] theorem find_getOrInsert_self (index : KeyIndex) (key : Bytes) :
    (index.getOrInsert key).1.find key = some (index.getOrInsert key).2 := by
  unfold getOrInsert
  split
  · assumption
  · rename_i fresh
    exact index.reverse.find_push_self key fresh

/-- Inserting a key leaves the id of every other key alone. -/
theorem find_getOrInsert_of_ne (index : KeyIndex) {key other : Bytes} (differs : other ≠ key) :
    (index.getOrInsert key).1.find other = index.find other := by
  unfold getOrInsert
  split
  · rfl
  · rename_i fresh
    exact index.reverse.find_push_of_ne fresh differs

/-- Inserting a key that has an id changes nothing. -/
theorem getOrInsert_of_find {index : KeyIndex} {key : Bytes} {id : KeyId}
    (found : index.find key = some id) : index.getOrInsert key = (index, id) := by
  unfold getOrInsert
  -- A key that is found is not registered again.
  split
  · rename_i held located
    have same : held = id := Option.some.inj (located.symm.trans found)
    rw [same]
  · rename_i fresh
    exact absurd (fresh.symm.trans found) (by simp)

/-- Inserting a new key puts it at the end. -/
theorem getOrInsert_of_fresh {index : KeyIndex} {key : Bytes} (fresh : index.find key = none) :
    index.getOrInsert key = (⟨index.reverse.push key fresh⟩, index.reverse.size) := by
  unfold getOrInsert
  split
  · rename_i id found
    exact absurd (fresh.symm.trans found) (by simp)
  · rfl

end KeyIndex

end Loglib
