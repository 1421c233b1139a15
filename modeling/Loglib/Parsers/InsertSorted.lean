import Loglib.Basic.SortedMap
import Loglib.Order.LowerBound
import Loglib.Table.LogLine

/-! Insertion of a field into a record: by a scan from the back while the record is small, and then
by binary search. -/

namespace Loglib

/-- The fields of a record while it is read. -/
abbrev FieldArray := List (KeyId × CompactLogValue)

namespace FieldArray

section Insertion

variable (out : FieldArray) (id : KeyId) (value : CompactLogValue)

/-- `emplace`. -/
def emplace (it : Nat) : FieldArray := insertBlock out it [(id, value)]

/-- Overwrite the value of an entry. -/
def overwrite (it : Nat) : FieldArray := out.modify it fun entry => (entry.1, value)

/-- The scan from the back, with the entries from the iterator on behind it. -/
def backScan : (it : Nat) → FieldArray
  | 0 => out.emplace id value 0
  | prev + 1 =>
    match out[prev]? with
    | none => backScan prev
    | some entry =>
      if entry.1 < id then out.emplace id value (prev + 1)
      else if entry.1 = id then out.overwrite value prev
      else backScan prev

/-- The linear path of `InsertSorted`. -/
def insertLinear : FieldArray := out.backScan id value out.length

/-- The binary search path of `InsertSorted`. -/
def insertBinary : FieldArray :=
  let it := lowerBound (fun entry : KeyId × CompactLogValue => entry.1 < id) out
  if (out[it]?).any fun entry => entry.1 = id then out.overwrite value it
    else out.emplace id value it

/-- `InsertSorted` with the size from which on it searches. -/
def insertSortedFrom (threshold : Nat) : FieldArray :=
  if out.length < threshold then out.insertLinear id value else out.insertBinary id value

end Insertion

end FieldArray

/-- `INSERT_SORTED_LOWER_BOUND_THRESHOLD` of the JSON parser. -/
def JsonParser.insertSortedLowerBoundThreshold : Nat := 8

/-- `InsertSorted` of the JSON parser. -/
def JsonParser.insertSorted (out : FieldArray) (id : KeyId) (value : CompactLogValue) :
    FieldArray :=
  out.insertSortedFrom id value JsonParser.insertSortedLowerBoundThreshold

/-- `INSERT_SORTED_LOWER_BOUND_THRESHOLD` of the logfmt parser. -/
def LogfmtParser.insertSortedLowerBoundThreshold : Nat := 8

/-- `InsertSorted` of the logfmt parser. -/
def LogfmtParser.insertSorted (out : FieldArray) (id : KeyId) (value : CompactLogValue) :
    FieldArray :=
  out.insertSortedFrom id value LogfmtParser.insertSortedLowerBoundThreshold

namespace FieldArray

section Paths

variable {out front back : FieldArray} {id : KeyId} (value : CompactLogValue)

/-- Entries above the key are passed. -/
theorem backScan_append (above : ∀ entry ∈ back, id < entry.1) :
    (front ++ back).backScan id value
      (front ++ back).length = (front ++ back).backScan id value front.length := by
  -- The scan goes on from each entry of the part behind, and the whole array stays as it is.
  suffices passed : ∀ count ≤ back.length,
    (front ++ back).backScan id value (front.length + count) =
      (front ++ back).backScan id value front.length by
    rw [List.length_append]
    exact passed back.length le_rfl
  intro count
  induction count with
  | zero => intro _; rfl
  | succ count ih =>
    intro inside
    have held : (front ++ back)[front.length + count]? = some (back.get ⟨count, inside⟩) := by
      rw [List.getElem?_append_right (Nat.le_add_right _ _), Nat.add_sub_cancel_left]
      exact List.getElem?_eq_getElem inside
    -- Each entry behind has a greater key, so the scan goes on in front of it.
    have greater := above _ (List.get_mem back ⟨count, inside⟩)
    rw [← Nat.add_assoc, backScan]
    simp only [held]
    rw [if_neg greater.not_gt, if_neg greater.ne']
    exact ih (Nat.le_of_succ_le inside)

/-- The entry of the key is overwritten where it stands. -/
theorem overwrite_append (old : CompactLogValue) :
    overwrite (front ++ (id, old) :: back) value front.length = front ++ (id, value) :: back := by
  simp [overwrite, List.modify_eq_take_drop]

/-- A new entry comes between the parts. -/
theorem emplace_append (id : KeyId) :
    emplace (front ++ back) id value front.length = front ++ (id, value) :: back := by
  simp [emplace, insertBlock]

/-- Entries below the key stop the scan. -/
theorem backScan_front (below : ∀ entry ∈ front, entry.1 < id) :
    (front ++ back).backScan id value front.length = front ++ (id, value) :: back := by
  rw [← emplace_append]
  -- The scan stops at the last entry in front, or at the start of the array.
  obtain rfl | ⟨init, last, rfl⟩ := List.eq_nil_or_concat' front
  · rfl
  · have held : (init ++ [last] ++ back)[init.length]? = some last := by simp
    have less := below last (List.mem_append_right init List.mem_cons_self)
    rw [List.length_append, List.length_singleton, backScan]
    simp only [held, if_pos less]

/-- The entry of the key stops the scan as well. -/
theorem backScan_held (old : CompactLogValue) :
    (front ++ (id, old) :: back).backScan id value
      (front.length + 1) = front ++ (id, value) :: back := by
  rw [← overwrite_append value old, backScan]
  simp

/-- The scan puts the value into the record. -/
theorem insertLinear_entries (map : SortedMap KeyId CompactLogValue) (id : KeyId) :
    insertLinear map.entries id value = (map.put id value).entries := by
  obtain ⟨split, put, -⟩ := map.split_at id
  have above : ∀ entry ∈ map.above id, id < entry.1 :=
    fun entry listed => of_decide_eq_true (List.mem_filter.mp listed).2
  have below : ∀ entry ∈ map.below id, entry.1 < id :=
    fun entry listed => of_decide_eq_true (List.mem_filter.mp listed).2
  rw [insertLinear, put, split]
  -- The scan passes the entries above, and then meets the entry of the key or one below it.
  cases map.lookup id with
  | none =>
    rw [Option.toList_none, List.map_nil, List.nil_append, backScan_append value above,
      backScan_front value below]
  | some old =>
    rw [Option.toList_some, List.map_singleton, ← List.append_assoc, backScan_append value above,
      List.append_assoc,
      List.length_append, List.length_singleton, List.singleton_append, backScan_held]

/-- The search puts the value into the record. -/
theorem insertBinary_entries (map : SortedMap KeyId CompactLogValue) (id : KeyId) :
    insertBinary map.entries id value = (map.put id value).entries := by
  obtain ⟨split, put, -⟩ := map.split_at id
  have above : ∀ entry ∈ map.above id, id < entry.1 :=
    fun entry listed => of_decide_eq_true (List.mem_filter.mp listed).2
  have below : ∀ entry ∈ map.below id, entry.1 < id :=
    fun entry listed => of_decide_eq_true (List.mem_filter.mp listed).2
  -- The entries below the key are the ones that pass the comparison.
  have found : lowerBound (fun entry : KeyId × CompactLogValue =>
      decide (entry.1 < id)) map.entries = (map.below id).length := by
    rw [split]
    refine lowerBound_append (fun entry listed =>
      decide_eq_true (below entry listed)) fun entry listed => ?_
    rcases List.mem_append.mp listed with held | behind
    · obtain ⟨old, -, rfl⟩ := List.mem_map.mp held
      exact decide_eq_false (lt_irrefl id)
    · exact decide_eq_false (above entry behind).not_gt
  rw [insertBinary, found, put, split]
  cases map.lookup id with
  | none =>
    -- The entry behind the place is one above the key, if there is one at all.
    have other : ((map.below id ++ map.above id)[(map.below id).length]?.any fun entry =>
        decide (entry.1 = id)) = false := by
      rw [List.getElem?_append_right le_rfl, Nat.sub_self]
      cases behind : (map.above id)[0]? with
      | none => rfl
      | some entry => exact decide_eq_false (above entry (List.mem_of_getElem? behind)).ne'
    rw [Option.toList_none, List.map_nil, List.nil_append, other, if_neg Bool.false_ne_true,
      emplace_append]
  | some old =>
    rw [Option.toList_some, List.map_singleton, List.singleton_append,
      List.getElem?_append_right le_rfl, Nat.sub_self,
      List.getElem?_cons_zero, Option.any_some, decide_eq_true rfl, if_pos rfl, overwrite_append]

/-- `InsertSorted` puts the value into the record, whatever the size from which on it searches. -/
theorem insertSortedFrom_entries (map : SortedMap KeyId CompactLogValue) (id : KeyId)
    (threshold : Nat) :
    insertSortedFrom map.entries id value threshold = (map.put id value).entries := by
  unfold insertSortedFrom
  split
  · -- Below the threshold the array is scanned.
    exact insertLinear_entries value map id
  · exact insertBinary_entries value map id

end Paths

end FieldArray

/-- The ways to insert a field: either path, or what one of the parsers does. -/
inductive InsertPath where
  | linear
  | binary
  | json
  | logfmt
deriving DecidableEq, Repr

namespace InsertPath

/-- An insertion. -/
def insert : InsertPath → FieldArray → KeyId → CompactLogValue → FieldArray
  | .linear => FieldArray.insertLinear
  | .binary => FieldArray.insertBinary
  | .json => JsonParser.insertSorted
  | .logfmt => LogfmtParser.insertSorted

/-- Insertions one after the other, each by its own path. -/
def insertAll (paths : Nat → InsertPath) : FieldArray → List (KeyId × CompactLogValue) → FieldArray
  | out, [] => out
  | out, (id, value) :: rest =>
    insertAll (fun step => paths (step + 1)) ((paths 0).insert out id value) rest

/-- The value that was written last for a key. -/
def lastWritten (writes : List (KeyId × CompactLogValue)) (id : KeyId) : Option CompactLogValue :=
  (writes.reverse.find? fun write => write.1 = id).map (·.2)

/-- Every path puts the value into the record. -/
theorem insert_entries (path : InsertPath) (map : SortedMap KeyId CompactLogValue) (id : KeyId)
    (value : CompactLogValue) :
    path.insert map.entries id value = (map.put id value).entries := by
  cases path with
  | linear => exact FieldArray.insertLinear_entries value map id
  | binary => exact FieldArray.insertBinary_entries value map id
  | json => exact FieldArray.insertSortedFrom_entries value map id _
  | logfmt => exact FieldArray.insertSortedFrom_entries value map id _

/-- Insertions put their values into the record, one after the other. -/
theorem insertAll_entries (paths : Nat → InsertPath) (map : SortedMap KeyId CompactLogValue)
    (writes : List (KeyId × CompactLogValue)) :
    insertAll paths map.entries writes =
      (writes.foldl (fun next write => next.put write.1 write.2) map).entries := by
  induction writes generalizing paths map with
  | nil => rfl
  | cons write rest ih =>
    -- One insertion is one put, whatever its path.
    rw [insertAll, insert_entries, ih, List.foldl_cons]

/-- A record that was empty holds what was written last. -/
theorem lookup_foldl_put (writes : List (KeyId × CompactLogValue)) (id : KeyId) :
    (writes.foldl (fun next write => next.put write.1 write.2) SortedMap.empty).lookup id =
      lastWritten writes id := by
  -- The induction is on the last write.
  induction writes using List.reverseRecOn with
  | nil => rfl
  | append_singleton writes last ih =>
    rw [List.foldl_append, List.foldl_cons, List.foldl_nil, SortedMap.lookup_put, ih]
    unfold lastWritten
    rw [List.reverse_append, List.reverse_singleton, List.singleton_append, List.find?_cons]
    -- The last write is found first, and hides earlier ones of its key.
    by_cases same : id = last.1
    · rw [if_pos same, decide_eq_true same.symm, Option.map_some]
    · rw [if_neg same, decide_eq_false (Ne.symm same)]

/-- Insertion does not depend on its path: whichever path each insertion takes, the fields
are strictly ascending, the array is that of the scan alone, and each key has the value
that was written last. -/
theorem insertAll_pathIndependent (paths : Nat → InsertPath)
    (writes : List (KeyId × CompactLogValue)) :
    insertAll paths [] writes = insertAll (fun _ => .linear) [] writes ∧
      (insertAll paths [] writes).Pairwise (fun first second => first.1 < second.1) ∧
      ∀ id value, (id, value) ∈ insertAll paths [] writes ↔ lastWritten writes id = some value := by
  -- Whatever the paths, the array is that of the sorted map with the same writes.
  have written (paths : Nat → InsertPath) := insertAll_entries paths .empty writes
  refine ⟨(written paths).trans (written _).symm, ?_, fun id value => ?_⟩
  · exact (written paths).symm ▸ SortedMap.sorted _
  · rw [← lookup_foldl_put, SortedMap.lookup_eq_some_iff]
    exact iff_of_eq (congrArg ((id, value) ∈ ·) (written paths))

end InsertPath

end Loglib
