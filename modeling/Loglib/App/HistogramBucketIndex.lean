import Loglib.Table.LogLevel

/-! The dense time buckets of the histogram, with a count for each level. -/

namespace Loglib

/-- The rungs of the zoom ladder. -/
inductive HistogramBucketSize where
  | oneSecond
  | tenSeconds
  | oneMinute
  | tenMinutes
  | oneHour
  | oneDay
deriving DecidableEq, Repr

/-- `HistogramBucketWidth`, in microseconds. -/
def HistogramBucketSize.width : HistogramBucketSize → Int
  | .oneSecond => 1000000
  | .tenSeconds => 10 * 1000000
  | .oneMinute => 60 * 1000000
  | .tenMinutes => 10 * 60 * 1000000
  | .oneHour => 60 * 60 * 1000000
  | .oneDay => 24 * 60 * 60 * 1000000

/-- Buckets are never empty intervals. -/
theorem HistogramBucketSize.width_pos (size : HistogramBucketSize) : 0 < size.width := by
  cases size <;> decide

/-- `FloorDivide`: the truncated quotient, one less where the signs disagree. -/
def floorDivide (numerator denominator : Int) : Int :=
  let quotient := numerator.tdiv denominator
  let remainder := numerator.tmod denominator
  if remainder ≠ 0 ∧ (remainder < 0 ↔ ¬denominator < 0) then quotient - 1 else quotient

/-- By a positive number, the floor is the Euclidean quotient. -/
theorem floorDivide_eq {numerator denominator : Int} (positive : 0 < denominator) :
    floorDivide numerator denominator = numerator / denominator := by
  have split_ := Int.mul_tdiv_add_tmod numerator denominator
  have small := Int.tmod_lt_of_pos numerator positive
  unfold floorDivide
  dsimp only
  -- The quotient is the number whose multiple lies at most one denominator below.
  split
  · rename_i disagree
    have negative : numerator.tmod denominator < 0 := disagree.2.mpr (by omega)
    have bounded : -denominator < numerator.tmod denominator :=
      Int.lt_tmod_of_pos numerator positive
    symm
    rw [Int.ediv_eq_iff_of_pos positive]
    constructor <;> nlinarith
  · rename_i agree
    have nonneg : 0 ≤ numerator.tmod denominator := by
      by_contra below
      exact agree ⟨by omega, by omega⟩
    symm
    rw [Int.ediv_eq_iff_of_pos positive]
    constructor <;> nlinarith

/-- Rows of one bucket by level. -/
structure LevelBucket where
  counts : LogLevel → UInt32

namespace LevelBucket

/-- A bucket without rows. -/
def empty : LevelBucket := ⟨fun _ => 0⟩

/-- One more row. -/
def count (bucket : LevelBucket) (level : LogLevel) : LevelBucket :=
  ⟨Function.update bucket.counts level (bucket.counts level + 1)⟩

end LevelBucket

/-- `HistogramBucketIndex`. Timestamps are whole numbers of microseconds; in the source, a
difference of two of them that leaves the 64 bits is undefined. -/
structure HistogramBucketIndex where
  bucketSize : HistogramBucketSize
  /-- Start of the first bucket. -/
  origin : Int
  buckets : List LevelBucket
  totalRowCount : Nat
  minTimestamp : Int
  maxTimestamp : Int

namespace HistogramBucketIndex

/-- An index that has seen no row. -/
def ofSize (size : HistogramBucketSize) : HistogramBucketIndex := ⟨size, 0, [], 0, 0, 0⟩

/-- `Reset`. -/
def reset (index : HistogramBucketIndex) : HistogramBucketIndex := .ofSize index.bucketSize

/-- `SetBucketSize`. -/
def setBucketSize (index : HistogramBucketIndex) (size : HistogramBucketSize) :
    HistogramBucketIndex :=
  if size = index.bucketSize then index else .ofSize size

/-- `TruncateToBucket`. -/
def truncateToBucket (ts : Int) (size : HistogramBucketSize) : Int :=
  floorDivide ts size.width * size.width

/-- `AutoBucketSize`: the finest rung whose buckets fit the budget. -/
def autoBucketSize (first second : Int) (visibleBucketBudget : Int) : HistogramBucketSize :=
  let min := if second < first then second else first
  let max := if second < first then first else second
  if max = min then .oneSecond
  else if visibleBucketBudget ≤ 0 then .oneDay
  else
    let fits (size : HistogramBucketSize) : Bool :=
      (max - min) / size.width + 1 ≤ visibleBucketBudget
    ([HistogramBucketSize.oneSecond, .tenSeconds, .oneMinute, .tenMinutes, .oneHour,
      .oneDay].find? fits).getD .oneDay

/-- `DEFAULT_VISIBLE_BUCKET_BUDGET`. -/
def defaultVisibleBucketBudget : Int := 500

/-- `AddRow`: count a row, and make room for its bucket in front or at the back. -/
def addRow (index : HistogramBucketIndex) (ts : Int) (level : LogLevel) : HistogramBucketIndex :=
  let width := index.bucketSize.width
  if index.buckets.isEmpty then
    { index with
      origin := truncateToBucket ts index.bucketSize
      buckets := [LevelBucket.empty.count level]
      totalRowCount := index.totalRowCount + 1
      minTimestamp := ts
      maxTimestamp := ts }
  else
    let bucketIdx := floorDivide (ts - index.origin) width
    let (origin, buckets, bucketIdx) :=
      -- A row in front of the buckets moves their origin.
      if bucketIdx < 0 then
        (index.origin + bucketIdx * width,
          List.replicate (-bucketIdx).toNat .empty ++ index.buckets, 0)
      -- A row behind them adds buckets up to its own.
      else if index.buckets.length ≤ bucketIdx.toNat then
        (index.origin, index.buckets ++ List.replicate (bucketIdx.toNat + 1 - index.buckets.length)
          .empty, bucketIdx.toNat)
      else (index.origin, index.buckets, bucketIdx.toNat)
    { index with
      origin := origin
      buckets := buckets.modify bucketIdx (·.count level)
      totalRowCount := index.totalRowCount + 1
      minTimestamp := if ts < index.minTimestamp then ts else index.minTimestamp
      maxTimestamp := if index.maxTimestamp < ts then ts else index.maxTimestamp }

/-- `BucketOf`. -/
def bucketOf (index : HistogramBucketIndex) (ts : Int) : Option Nat :=
  if index.buckets.isEmpty then none
  else
    let bucketIdx := floorDivide (ts - index.origin) index.bucketSize.width
    if bucketIdx < 0 ∨ index.buckets.length ≤ bucketIdx.toNat then none else some bucketIdx.toNat

section Buckets

variable {index : HistogramBucketIndex} {ts other : Int} {level : LogLevel}

/-- A timestamp lies in the bucket whose number is the quotient, if there is such a bucket. -/
theorem bucketOf_eq_some_iff {bucket : Nat} :
    index.bucketOf ts = some bucket ↔
      bucket < index.buckets.length ∧ (ts - index.origin) / index.bucketSize.width = bucket := by
  unfold bucketOf
  rw [floorDivide_eq index.bucketSize.width_pos]
  dsimp only
  -- Without buckets no instant is in one.
  split
  · rename_i empty
    rw [List.isEmpty_iff.mp empty]
    simp
  · split
    · -- In front of the first bucket, or behind the last one.
      rename_i outside
      simp only [reduceCtorEq, false_iff, not_and]
      intro inside same
      omega
    · rename_i inside
      simp only [not_or, not_lt, not_le] at inside
      rw [Option.some.injEq]
      omega

/-- Some bucket holds the timestamp exactly if it is neither before the first bucket nor behind the
last one. -/
theorem bucketOf_isSome_iff :
    (index.bucketOf ts).isSome ↔
      0 ≤ (ts - index.origin) / index.bucketSize.width ∧
        (ts - index.origin) / index.bucketSize.width < index.buckets.length := by
  rw [Option.isSome_iff_exists]
  -- An instant has a bucket exactly if its number lies among theirs.
  constructor
  · rintro ⟨bucket, found⟩
    obtain ⟨inside, same⟩ := bucketOf_eq_some_iff.mp found
    omega
  · rintro ⟨front, back⟩
    exact ⟨((ts - index.origin) / index.bucketSize.width).toNat,
      bucketOf_eq_some_iff.mpr ⟨by omega, by omega⟩⟩

/-- The three ways in which a row finds its bucket. -/
inductive Placed (index : HistogramBucketIndex) (ts : Int)
    (next : HistogramBucketIndex) : Prop where
  | first (empty : index.buckets = []) (origin : next.origin = ts / index.bucketSize.width *
      index.bucketSize.width)
      (length : next.buckets.length = 1)
  | front (some_ : index.buckets ≠ []) (before : (ts - index.origin) / index.bucketSize.width < 0)
      (origin : next.origin = index.origin + (ts - index.origin) / index.bucketSize.width *
        index.bucketSize.width)
      (length : (next.buckets.length : Int) =
        index.buckets.length - (ts - index.origin) / index.bucketSize.width)
  | back (some_ : index.buckets ≠ []) (after : 0 ≤ (ts - index.origin) / index.bucketSize.width)
      (origin : next.origin = index.origin)
      (length : (next.buckets.length : Int) =
        max (index.buckets.length : Int) ((ts - index.origin) / index.bucketSize.width + 1))

/-- `AddRow` places its row. -/
theorem addRow_placed (index : HistogramBucketIndex) (ts : Int) (level : LogLevel) :
    index.Placed ts (index.addRow ts level) := by
  unfold addRow
  dsimp only
  split
  · rename_i empty
    apply Placed.first (List.isEmpty_iff.mp empty)
    · rw [truncateToBucket, floorDivide_eq index.bucketSize.width_pos]
    · rfl
  · rename_i some_
    have some_ : index.buckets ≠ [] := fun empty => some_ (List.isEmpty_iff.mpr empty)
    rw [floorDivide_eq index.bucketSize.width_pos]
    split
    · rename_i before
      refine .front some_ before rfl ?_
      simp only [List.length_modify, List.length_append, List.length_replicate]
      omega
    · rename_i after
      -- The vector grows only where the bucket lies behind its end.
      split
      · refine .back some_ (by omega) rfl ?_
        simp only [List.length_modify, List.length_append, List.length_replicate]
        omega
      · refine .back some_ (by omega) rfl ?_
        simp only [List.length_modify]
        omega

/-- Counting a row keeps the size of the buckets. -/
@[simp] theorem addRow_bucketSize (index : HistogramBucketIndex) (ts : Int) (level : LogLevel) :
    (index.addRow ts level).bucketSize = index.bucketSize := by
  unfold addRow
  dsimp only
  split <;> rfl

/-- A counted row has a bucket. -/
theorem bucketOf_addRow_self : ((index.addRow ts level).bucketOf ts).isSome := by
  have positive := index.bucketSize.width_pos
  rw [bucketOf_isSome_iff, addRow_bucketSize]
  -- The row was the first of all, lies in front of the buckets, or behind the front.
  cases index.addRow_placed ts level with
  | first empty origin length =>
    have zero : (ts - ts / index.bucketSize.width * index.bucketSize.width) /
        index.bucketSize.width = 0 := by
      rw [Int.sub_mul_ediv_right _ _ positive.ne']
      omega
    rw [origin, length, zero]
    omega
  | front some_ before origin length =>
    have zero : (ts - (index.origin + (ts - index.origin) / index.bucketSize.width *
      index.bucketSize.width)) /
        index.bucketSize.width = 0 := by
      rw [← Int.sub_sub, Int.sub_mul_ediv_right _ _ positive.ne']
      omega
    rw [origin, length, zero]
    omega
  | back some_ after origin length =>
    rw [origin, length]
    omega

/-- What has a bucket keeps one. -/
theorem bucketOf_addRow_isSome (covered : (index.bucketOf other).isSome) :
    ((index.addRow ts level).bucketOf other).isSome := by
  have positive := index.bucketSize.width_pos
  rw [bucketOf_isSome_iff] at covered
  rw [bucketOf_isSome_iff, addRow_bucketSize]
  cases index.addRow_placed ts level with
  | first empty origin length =>
    rw [empty] at covered
    simp only [List.length_nil] at covered
    omega
  | front some_ before origin length =>
    -- Every bucket moves up by as many places as there are new ones in front.
    have moved : (other - (index.origin + (ts - index.origin) / index.bucketSize.width *
      index.bucketSize.width)) /
        index.bucketSize.width =
          (other - index.origin) / index.bucketSize.width - (ts - index.origin) /
            index.bucketSize.width := by
      rw [← Int.sub_sub, Int.sub_mul_ediv_right _ _ positive.ne']
    rw [origin, length, moved]
    omega
  | back some_ after origin length =>
    rw [origin, length]
    omega

/-- A row that is not before the first bucket leaves the buckets of the others as they are. -/
theorem bucketOf_addRow_of_le
    (notBefore : index.buckets ≠ [] → 0 ≤ (ts - index.origin) / index.bucketSize.width)
    (covered : (index.bucketOf other).isSome) :
    (index.addRow ts level).bucketOf other = index.bucketOf other := by
  obtain ⟨bucket, found⟩ := Option.isSome_iff_exists.mp covered
  rw [found, bucketOf_eq_some_iff, addRow_bucketSize]
  obtain ⟨inside, same⟩ := bucketOf_eq_some_iff.mp found
  -- Only a bucket put in front would move the buckets that are there.
  cases index.addRow_placed ts level with
  | first empty origin length =>
    rw [empty] at inside
    contradiction
  | front some_ before origin length =>
    have := notBefore some_
    omega
  | back some_ after origin length =>
    rw [origin]
    omega

/-- The first bucket starts at a multiple of the width. -/
def Aligned (index : HistogramBucketIndex) : Prop :=
  index.buckets ≠ [] → index.bucketSize.width ∣ index.origin

/-- Counting a row keeps the buckets aligned. -/
theorem addRow_aligned (aligned : index.Aligned) : (index.addRow ts level).Aligned := by
  intro _
  rw [addRow_bucketSize]
  -- A new origin is a multiple of the width, or a multiple in front of the old one.
  cases index.addRow_placed ts level with
  | first empty origin length =>
    rw [origin]
    exact dvd_mul_left _ _
  | front some_ before origin length =>
    rw [origin]
    exact dvd_add (aligned some_) (dvd_mul_left _ _)
  | back some_ after origin length =>
    rw [origin]
    exact aligned some_

/-- A timestamp in the same or a later bucket than one that is held is not before the
first bucket. -/
theorem not_before_of_le (aligned : index.Aligned) (covered : (index.bucketOf other).isSome)
    (later : other / index.bucketSize.width ≤ ts / index.bucketSize.width) :
    0 ≤ (ts - index.origin) / index.bucketSize.width := by
  obtain ⟨front, back⟩ := bucketOf_isSome_iff.mp covered
  have some_ : index.buckets ≠ [] := by
    intro empty
    rw [empty] at back
    simp only [List.length_nil] at back
    omega
  obtain ⟨multiple, start⟩ := aligned some_
  -- The origin is a multiple of the width, so buckets are counted from it.
  have shift : ∀ instant : Int, (instant - index.origin) / index.bucketSize.width =
      instant / index.bucketSize.width - multiple := by
    intro instant
    rw [start, mul_comm, Int.sub_mul_ediv_right _ _ index.bucketSize.width_pos.ne']
  rw [shift] at front ⊢
  omega

end Buckets

end HistogramBucketIndex

end Loglib
