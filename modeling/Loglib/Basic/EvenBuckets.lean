import Mathlib

/-! Rows that are spread evenly over buckets, and folds that change one bucket a row. -/

namespace Loglib

section Partition

/-- The bucket of a row: the buckets share the rows evenly, in order. -/
def evenBucket (rowCount bucketCount row : Nat) : Nat := row * bucketCount / rowCount

/-- The first row that may lie in a bucket. -/
def evenFirstRow (rowCount bucketCount bucket : Nat) : Nat :=
  (bucket * rowCount + bucketCount - 1) / bucketCount

variable {rowCount bucketCount row bucket : Nat}

/-- A row has a bucket. -/
theorem evenBucket_lt (inside : row < rowCount) (some_ : 0 < bucketCount) :
    evenBucket rowCount bucketCount row < bucketCount := by
  rw [evenBucket, Nat.div_lt_iff_lt_mul (by omega), Nat.mul_comm bucketCount]
  exact Nat.mul_lt_mul_of_pos_right inside some_

/-- The rows from a bucket on are those from its first row on. -/
theorem le_evenBucket_iff (rows : 0 < rowCount) (some_ : 0 < bucketCount) :
    bucket ≤ evenBucket rowCount bucketCount row ↔
      evenFirstRow rowCount bucketCount bucket ≤ row := by
  have rounded : evenFirstRow rowCount bucketCount bucket ≤ row ↔
      bucket * rowCount + bucketCount - 1 < (row + 1) * bucketCount := by
    rw [evenFirstRow, ← Nat.lt_succ_iff, Nat.div_lt_iff_lt_mul some_]
  rw [rounded, evenBucket, Nat.le_div_iff_mul_le rows, Nat.succ_mul]
  omega

/-- The first row that may lie in a bucket lies in it, when there is any. -/
theorem isLeast_evenFirstRow (some_ : 0 < bucketCount) (inside : row < rowCount)
    (held : evenBucket rowCount bucketCount row = bucket) :
    IsLeast {other | other < rowCount ∧ evenBucket rowCount bucketCount other = bucket}
      (evenFirstRow rowCount bucketCount bucket) := by
  have rows : 0 < rowCount := by omega
  have before := (le_evenBucket_iff rows some_).mp held.ge
  refine ⟨⟨by omega, ?_⟩, fun other ⟨_, same⟩ => (le_evenBucket_iff rows some_).mp same.ge⟩
  -- It is not in a later bucket, for then the row would be too.
  apply le_antisymm
  · by_contra later
    have behind := (le_evenBucket_iff rows some_).mp (Nat.lt_of_not_le later)
    have rowBehind := (le_evenBucket_iff rows some_).mpr (behind.trans before)
    omega
  · exact (le_evenBucket_iff rows some_).mpr le_rfl

end Partition

section Folds

variable {ρ β : Type}

/-- A change that leaves the bucket as it is changes nothing. -/
theorem modify_of_fixed {buckets : List β} {bucket : Nat} {held : β}
    (present : buckets[bucket]? = some held)
    {change : β → β} (fixed : change held = held) : buckets.modify bucket change = buckets := by
  apply List.ext_getElem?
  intro other
  by_cases here : bucket = other
  · rw [← here, List.getElem?_modify_eq, present, Option.map_eq_map, Option.map_some, fixed]
  · rw [List.getElem?_modify_ne _ _ here]

/-- Changing one bucket a row adds none. -/
theorem length_foldl_modify (slot : ρ → Nat) (update : ρ → β → β) (rows : List ρ)
    (buckets : List β) :
    (rows.foldl (fun buckets row => buckets.modify (slot row) (update row)) buckets).length =
      buckets.length := by
  induction rows generalizing buckets with
  | nil => rfl
  | cons row rest ih => rw [List.foldl_cons, ih, List.length_modify]

/-- Changing one bucket a row changes each bucket by its own rows. -/
theorem getElem?_foldl_modify (slot : ρ → Nat) (update : ρ → β → β) (rows : List ρ)
    (buckets : List β) (bucket : Nat) :
    (rows.foldl (fun buckets row => buckets.modify (slot row) (update row)) buckets)[bucket]? =
      buckets[bucket]?.map fun held => (rows.filter (slot · = bucket)).foldl
        (fun held row => update row held) held := by
  -- Each row changes its own bucket only.
  induction rows generalizing buckets with
  | nil => simp
  | cons row rows ih =>
    rw [List.foldl_cons, ih, List.getElem?_modify]
    by_cases same : slot row = bucket
    · simp [same, Option.map_map, Function.comp_def]
    · simp [same]

end Folds

end Loglib
