import Loglib.App.HistogramBucketIndex

/-! What the histogram index holds for the rows it was fed, in whatever order they came. -/

namespace Loglib

namespace HistogramBucketIndex

/-- Rows one after another. -/
def addRows (index : HistogramBucketIndex) (rows : List (Int × LogLevel)) : HistogramBucketIndex :=
  rows.foldl (fun index row => index.addRow row.1 row.2) index

/-- `BucketStart`. -/
def bucketStart (index : HistogramBucketIndex) (bucket : Nat) : Int :=
  index.origin + bucket * index.bucketSize.width

/-- `BucketEnd`. -/
def bucketEnd (index : HistogramBucketIndex) (bucket : Nat) : Int :=
  index.bucketStart bucket + index.bucketSize.width

/-- `MinTimestamp`. -/
def earliest (index : HistogramBucketIndex) : Option Int :=
  if index.buckets.isEmpty then none else some index.minTimestamp

/-- `MaxTimestamp`. -/
def latest (index : HistogramBucketIndex) : Option Int :=
  if index.buckets.isEmpty then none else some index.maxTimestamp

section Growth

variable {index : HistogramBucketIndex}

/-- The buckets with empty ones at both ends. -/
def padded (index : HistogramBucketIndex) (front back : Nat) : List LevelBucket :=
  List.replicate front LevelBucket.empty ++ index.buckets ++ List.replicate back LevelBucket.empty

/-- A row makes room in front of the buckets or behind them, and is counted in the bucket
it has then. -/
structure Grown (index : HistogramBucketIndex) (ts : Int) (level : LogLevel)
    (front back place : Nat)
    (next : HistogramBucketIndex) : Prop where
  size : next.bucketSize = index.bucketSize
  origin : next.origin = index.origin - front * index.bucketSize.width
  buckets : next.buckets = (index.padded front back).modify place (·.count level)
  number : (place : Int) = (ts - index.origin) / index.bucketSize.width + front
  inside : place < front + index.buckets.length + back
  noFront : front = 0 ∨ place = 0
  noBack : back = 0 ∨ place + 1 = front + index.buckets.length + back
  total : next.totalRowCount = index.totalRowCount + 1
  least : next.minTimestamp = min ts index.minTimestamp
  greatest : next.maxTimestamp = max ts index.maxTimestamp

/-- `AddRow` grows an index that has buckets. -/
theorem addRow_grown (some_ : index.buckets ≠ []) (ts : Int) (level : LogLevel) :
    ∃ front back place, Grown index ts level front back place (index.addRow ts level) := by
  have full : index.buckets.isEmpty = false := List.isEmpty_eq_false_iff.mpr some_
  have least : (if ts < index.minTimestamp then ts else index.minTimestamp) =
      min ts index.minTimestamp := by
    rw [min_def]
    split <;> split <;> omega
  have greatest : (if index.maxTimestamp < ts then ts else index.maxTimestamp) =
      max ts index.maxTimestamp := by
    rw [max_def]
    split <;> split <;> omega
  have length := List.length_pos_of_ne_nil some_
  unfold addRow
  simp only [full, Bool.false_eq_true, if_false, floorDivide_eq index.bucketSize.width_pos]
  generalize quotient : (ts - index.origin) / index.bucketSize.width = bucketIdx
  split
  · rename_i before
    refine ⟨(-bucketIdx).toNat, 0, 0, rfl, ?_,
      by simp [padded], by omega, by omega, .inr rfl, .inl rfl, rfl, least, greatest⟩
    -- The row lies in front, so buckets are added up to its own.
    have amount : (((-bucketIdx).toNat : Nat) : Int) = -bucketIdx := by omega
    rw [amount]
    ring
  · split
    · rename_i after beyond
      exact ⟨0, bucketIdx.toNat + 1 - index.buckets.length, bucketIdx.toNat, rfl,
        by simp, by simp [padded], by omega,
        by omega, .inl rfl, by omega, rfl, least, greatest⟩
    · rename_i after inside
      exact ⟨0, 0, bucketIdx.toNat, rfl,
        by simp, by simp [padded], by omega, by omega, .inl rfl, .inl rfl, rfl, least,
        greatest⟩

end Growth

section Counting

variable {index other : HistogramBucketIndex} {rows : Multiset (Int × LogLevel)} {ts : Int}
    {level : LogLevel}

/-- The rows of a bucket and a level, by the number of the bucket since the epoch. -/
def tally (size : HistogramBucketSize) (rows : Multiset (Int × LogLevel)) (number : Int)
    (level : LogLevel) : Nat :=
  rows.countP fun row => row.1 / size.width = number ∧ row.2 = level

/-- The index counts these rows, of which there is at least one: its buckets reach from the first
row to the last. -/
structure Counts (index : HistogramBucketIndex) (rows : Multiset (Int × LogLevel)) : Prop where
  least : IsLeast {ts | ts ∈ rows.map Prod.fst} index.minTimestamp
  greatest : IsGreatest {ts | ts ∈ rows.map Prod.fst} index.maxTimestamp
  origin : index.origin = index.minTimestamp / index.bucketSize.width * index.bucketSize.width
  length : (index.buckets.length : Int) =
    index.maxTimestamp / index.bucketSize.width - index.minTimestamp / index.bucketSize.width + 1
  counts : ∀ (place : Nat) bucket, index.buckets[place]? = some bucket →
    ∀ level, bucket.counts level =
    UInt32.ofNat (tally index.bucketSize rows (index.minTimestamp / index.bucketSize.width +
      place) level)
  total : index.totalRowCount = Multiset.card rows

/-- Buckets of smaller timestamps have smaller numbers. -/
theorem number_le (size : HistogramBucketSize) {first second : Int} (le : first ≤ second) :
    first / size.width ≤ second / size.width :=
  Int.ediv_le_ediv size.width_pos le

/-- One row more in its bucket. -/
theorem tally_cons (size : HistogramBucketSize) (number : Int) (other : LogLevel) :
    tally size ((ts, level) ::ₘ rows) number other =
      tally size rows number other + if ts / size.width = number ∧ level = other then 1 else 0 := by
  unfold tally
  rw [Multiset.countP_cons]

/-- The first row. -/
theorem counts_first (size : HistogramBucketSize) (ts : Int) (level : LogLevel) :
    Counts ((ofSize size).addRow ts level) {(ts, level)} := by
  have built : (ofSize size).addRow ts level =
      ⟨size, ts / size.width * size.width, [LevelBucket.empty.count level], 1, ts, ts⟩ := by
    rw [← floorDivide_eq size.width_pos]
    rfl
  rw [built]
  refine ⟨by simp, by simp, rfl, by simp, ?_, by simp⟩
  intro place bucket found other
  -- There is one bucket, and it has one row.
  obtain ⟨rfl, rfl⟩ : place = 0 ∧ bucket = LevelBucket.empty.count level := by
    cases place with
    | zero => exact ⟨rfl, (Option.some.inj found).symm⟩
    | succ place => simp at found
  have single : tally size {(ts, level)} (ts / size.width + (0 : Nat)) other = if level =
      other then 1 else 0 := by
    have none_ : tally size 0 (ts / size.width + (0 : Nat)) other = 0 := Multiset.countP_zero _
    rw [← Multiset.cons_zero, tally_cons, none_]
    simp
  rw [single]
  by_cases same : other = level
  · subst same
    simp [LevelBucket.count, LevelBucket.empty]
  · have unlike : level ≠ other := fun eq => same eq.symm
    simp [LevelBucket.count, LevelBucket.empty, same, unlike]

/-- Where no row lies, none is counted. -/
theorem Counts.tally_outside (counts : Counts index rows) {number : Int}
    (outside : number < index.minTimestamp / index.bucketSize.width ∨
      index.maxTimestamp / index.bucketSize.width < number) (level : LogLevel) :
    tally index.bucketSize rows number level = 0 := by
  unfold tally
  rw [Multiset.countP_eq_zero]
  rintro row member ⟨same, -⟩
  -- A row has a number between those of the first and the last.
  have fromLeast := number_le index.bucketSize
    (counts.least.2 (Multiset.mem_map_of_mem Prod.fst member))
  have toGreatest := number_le index.bucketSize
    (counts.greatest.2 (Multiset.mem_map_of_mem Prod.fst member))
  omega

/-- The counts stand in buckets that were added at both ends. -/
theorem Counts.of_padded (counts : Counts index rows) {front back place : Nat}
    {bucket : LevelBucket}
    (found : (index.padded front back)[place]? = some bucket)
    (level : LogLevel) :
    bucket.counts level = UInt32.ofNat
      (tally index.bucketSize rows (index.minTimestamp / index.bucketSize.width - front + place)
        level) := by
  have length := counts.length
  unfold padded at found
  rcases Nat.lt_or_ge place front with early | later
  · -- In front of the buckets.
    rw [List.append_assoc, List.getElem?_append_left (by simpa using early),
      List.getElem?_replicate, if_pos early] at found
    obtain rfl := Option.some.inj found
    rw [counts.tally_outside (.inl (by omega))]
    rfl
  · rw [List.append_assoc, List.getElem?_append_right (by simpa using later),
      List.length_replicate] at found
    rcases Nat.lt_or_ge (place - front) index.buckets.length with inside | behind
    · rw [List.getElem?_append_left inside] at found
      -- One of the buckets that were there, farther on by those in front.
      have number : index.minTimestamp / index.bucketSize.width - front + place =
          index.minTimestamp / index.bucketSize.width + ((place - front : Nat) : Int) := by omega
      rw [number]
      exact counts.counts _ _ found level
    · -- Behind them.
      rw [List.getElem?_append_right behind, List.getElem?_replicate] at found
      split at found
      · obtain rfl := Option.some.inj found
        rw [counts.tally_outside (.inr (by omega))]
        rfl
      · cases found

/-- The instants of the rows after one more. -/
theorem instants_cons : {other | other ∈ ((ts, level) ::ₘ rows).map Prod.fst} = insert ts
    {ts | ts ∈ rows.map Prod.fst} := by
  ext other
  rw [Multiset.map_cons, Set.mem_ofPred_eq, Multiset.mem_cons]
  rfl

/-- An index that counts rows has buckets. -/
theorem Counts.ne_nil (counts : Counts index rows) : index.buckets ≠ [] := by
  intro none_
  have length := counts.length
  have ordered := number_le index.bucketSize (counts.greatest.2 counts.least.1)
  rw [none_, List.length_nil] at length
  omega

/-- One more row is counted. -/
theorem Counts.addRow (counts : Counts index rows) (ts : Int) (level : LogLevel) :
    Counts (index.addRow ts level) ((ts, level) ::ₘ rows) := by
  obtain ⟨front, back, place, grown⟩ := addRow_grown counts.ne_nil ts level
  have positive := index.bucketSize.width_pos
  have shift : (ts - index.origin) / index.bucketSize.width =
      ts / index.bucketSize.width - index.minTimestamp / index.bucketSize.width := by
    rw [counts.origin, Int.sub_mul_ediv_right _ _ positive.ne']
  have placed := grown.number
  rw [shift] at placed
  have inside := grown.inside
  have noFront := grown.noFront
  have noBack := grown.noBack
  have length := counts.length
  have ordered := number_le index.bucketSize (counts.greatest.2 counts.least.1)
  have monotone : Monotone fun instant : Int => instant / index.bucketSize.width :=
    fun _ _ => number_le index.bucketSize
  -- Both ends are those of the rows.
  have first : min ts index.minTimestamp / index.bucketSize.width =
      index.minTimestamp / index.bucketSize.width - front := by
    have least := monotone.map_min (a := ts) (b := index.minTimestamp)
    omega
  have last : max ts index.maxTimestamp / index.bucketSize.width =
      index.maxTimestamp / index.bucketSize.width + back := by
    have greatest := monotone.map_max (a := ts) (b := index.maxTimestamp)
    omega
  refine ⟨?_, ?_, ?_, ?_, ?_, ?_⟩
  · rw [grown.least]
    rw [instants_cons]
    exact counts.least.insert ts
  · rw [grown.greatest]
    rw [instants_cons]
    exact counts.greatest.insert ts
  · rw [grown.size, grown.least, first, grown.origin, counts.origin]
    ring
  · rw [grown.size, grown.least, grown.greatest, first, last, grown.buckets]
    simp only [padded, List.length_modify, List.length_append, List.length_replicate]
    omega
  · intro bucketIdx bucket found other
    rw [grown.size, grown.least, first, tally_cons]
    rw [grown.buckets, List.getElem?_modify] at found
    obtain ⟨before, present, rfl⟩ := Option.map_eq_some_iff.mp found
    -- The bucket was there before, or is one of the new ones, and its count is that of
    -- the earlier rows.
    have counted := counts.of_padded present
    by_cases here : place = bucketIdx
    · subst here
      have number : ts / index.bucketSize.width =
          index.minTimestamp / index.bucketSize.width - front + place := by omega
      rw [if_pos rfl]
      by_cases same : level = other
      · subst same
        rw [if_pos ⟨number, rfl⟩, UInt32.ofNat_add, ← counted]
        simp [LevelBucket.count]
      · have unlike : other ≠ level := fun eq => same eq.symm
        rw [if_neg fun both => same both.2, Nat.add_zero, ← counted]
        simp [LevelBucket.count, unlike]
    · -- The row lies in another bucket.
      have elsewhere : ts / index.bucketSize.width ≠
          index.minTimestamp / index.bucketSize.width - front + bucketIdx := by omega
      rw [if_neg here, if_neg fun both => elsewhere both.1, Nat.add_zero]
      exact counted other
  · rw [grown.total, counts.total, Multiset.card_cons]

/-- What an index counts determines it. -/
theorem Counts.unique (left : Counts index rows) (right : Counts other rows)
    (size : other.bucketSize = index.bucketSize) : other = index := by
  obtain ⟨width, origin, buckets, total, least, greatest⟩ := index
  obtain ⟨width', origin', buckets', total', least', greatest'⟩ := other
  dsimp only at size
  subst size
  have sameLeast : least' = least := right.least.unique left.least
  have sameGreatest : greatest' = greatest := right.greatest.unique left.greatest
  subst sameLeast sameGreatest
  have sameOrigin : origin' = origin := right.origin.trans left.origin.symm
  have sameTotal : total' = total := right.total.trans left.total.symm
  have length : buckets'.length = buckets.length :=
    Int.natCast_inj.mp (right.length.trans left.length.symm)
  -- There are as many buckets, and each has the counts that the rows have.
  have sameBuckets : buckets' = buckets := by
    apply List.ext_getElem length
    intro place inside' inside
    have counted : buckets'[place].counts = buckets[place].counts := by
      funext level
      exact (right.counts place _ (List.getElem?_eq_getElem inside') level).trans
        (left.counts place _ (List.getElem?_eq_getElem inside) level).symm
    exact congrArg LevelBucket.mk counted
  rw [sameOrigin, sameTotal, sameBuckets]

end Counting

section Runs

variable {size : HistogramBucketSize} {rows : List (Int × LogLevel)}

/-- Rows are counted in buckets of one size. -/
theorem addRows_bucketSize (index : HistogramBucketIndex) (rows : List (Int × LogLevel)) :
    (index.addRows rows).bucketSize = index.bucketSize := by
  unfold addRows
  -- The induction is on the rows that are left to feed.
  induction rows generalizing index with
  | nil => rfl
  | cons row rows ih => rw [List.foldl_cons, ih, addRow_bucketSize]

/-- An index counts the rows it was fed. -/
theorem addRows_counts (size : HistogramBucketSize) (some_ : rows ≠ []) :
    Counts ((ofSize size).addRows rows) rows := by
  -- The induction takes the last row off, which is the last one fed.
  induction rows using List.reverseRecOn with
  | nil => exact absurd rfl some_
  | append_singleton rows row ih =>
    have after : (ofSize size).addRows (rows ++ [row]) = ((ofSize size).addRows rows).addRow row.1
        row.2 := by
      simp [addRows]
    have all : ((rows ++ [row] : List (Int × LogLevel)) : Multiset (Int × LogLevel)) =
        row ::ₘ (rows : Multiset _) := by
      rw [Multiset.cons_coe, Multiset.coe_eq_coe]
      exact List.perm_append_singleton row rows
    rw [after, all]
    cases rows with
    | nil => exact counts_first size row.1 row.2
    | cons first rest => exact (ih (List.cons_ne_nil first rest)).addRow row.1 row.2

/-- The rows of a level from one instant to another. -/
def rowsBetween (rows : List (Int × LogLevel)) (start stop : Int) (level : LogLevel) : Nat :=
  rows.countP fun row => start ≤ row.1 ∧ row.1 < stop ∧ row.2 = level

/-- What an index shows of the rows it was fed. A number of rows and the slot they are counted in
are related by `slotOf`. -/
structure Shows (index : HistogramBucketIndex) (rows : List (Int × LogLevel))
    (slotOf : Nat → UInt32 → Prop) : Prop where
  slots : ∀ (place : Nat) bucket, index.buckets[place]? = some bucket → ∀ level,
    slotOf (rowsBetween rows (index.bucketStart place) (index.bucketEnd place) level)
      (bucket.counts level)
  covers : ∀ row ∈ rows, ∃ place, index.bucketOf row.1 = some place ∧
    index.bucketStart place ≤ row.1 ∧ row.1 < index.bucketEnd place
  total : index.totalRowCount = rows.length
  earliest : index.earliest = (rows.map Prod.fst).min?
  latest : index.latest = (rows.map Prod.fst).max?

/-- An instant lies in a bucket exactly if the bucket has the number of the instant. -/
theorem Counts.between_iff {index : HistogramBucketIndex} {all : Multiset (Int × LogLevel)}
    (counts : Counts index all)
    {place : Nat} {ts : Int} :
    index.bucketStart place ≤ ts ∧ ts < index.bucketEnd place ↔
      ts / index.bucketSize.width = index.minTimestamp / index.bucketSize.width + place := by
  rw [Int.ediv_eq_iff_of_pos index.bucketSize.width_pos, bucketEnd, bucketStart,
    counts.origin, add_mul]

/-- Every bucket counts its rows, whatever order they came in. -/
theorem addRows_shows (size : HistogramBucketSize) (rows : List (Int × LogLevel)) :
    Shows ((ofSize size).addRows rows) rows fun number slot => slot = UInt32.ofNat number := by
  rcases eq_or_ne rows [] with rfl | some_
  · refine ⟨?_, by simp, rfl, rfl, rfl⟩
    intro place bucket found
    simp [addRows, ofSize] at found
  · -- The counts per bucket are known from the pass over the rows.
    have counts := addRows_counts size some_
    have full : ((ofSize size).addRows rows).buckets.isEmpty = false :=
      List.isEmpty_eq_false_iff.mpr counts.ne_nil
    generalize (ofSize size).addRows rows = index at counts full
    refine ⟨?_, ?_, ?_, ?_, ?_⟩
    · -- A bucket counts the rows between its bounds.
      intro place bucket found level
      rw [counts.counts place bucket found level, tally, Multiset.coe_countP, rowsBetween]
      congr 1
      apply List.countP_congr
      intro row _
      rw [decide_eq_true_iff, decide_eq_true_iff, ← counts.between_iff, and_assoc]
    · -- Every row lies between the first bucket and the last one.
      intro row member
      have positive := index.bucketSize.width_pos
      have held : row.1 ∈ (rows : Multiset (Int × LogLevel)).map Prod.fst :=
        Multiset.mem_map_of_mem Prod.fst (Multiset.mem_coe.mpr member)
      have after := number_le index.bucketSize (counts.least.2 held)
      have before := number_le index.bucketSize (counts.greatest.2 held)
      have length := counts.length
      obtain ⟨place, number⟩ : ∃ place : Nat, row.1 / index.bucketSize.width =
          index.minTimestamp / index.bucketSize.width + place :=
        ⟨(row.1 / index.bucketSize.width - index.minTimestamp / index.bucketSize.width).toNat,
          by omega⟩
      refine ⟨place, bucketOf_eq_some_iff.mpr ⟨by omega, ?_⟩, counts.between_iff.mpr number⟩
      rw [counts.origin, Int.sub_mul_ediv_right _ _ positive.ne']
      omega
    · rw [counts.total, Multiset.coe_card]
    · -- The ends are the least and the greatest instant.
      rw [earliest, full, if_neg Bool.false_ne_true, eq_comm, List.min?_eq_some_iff]
      exact ⟨by simpa using counts.least.1, fun other member => counts.least.2 (by simpa using member)⟩
    · rw [latest, full, if_neg Bool.false_ne_true, eq_comm, List.max?_eq_some_iff]
      exact ⟨by simpa using counts.greatest.1, fun other member => counts.greatest.2 (by simpa using member)⟩

/-- The state is that of the rows as a multiset, and every slot has the number of its rows
up to its 32 bits. -/
theorem addRows_exact (size : HistogramBucketSize) (rows : List (Int × LogLevel)) :
    (∀ others, others.Perm rows → (ofSize size).addRows others = (ofSize size).addRows rows) ∧
      Shows ((ofSize size).addRows rows) rows fun number slot => slot.toNat = number % 2 ^ 32 := by
  refine ⟨?_, ?_⟩
  · -- The counts are those of the multiset, which has no order.
    intro others perm
    rcases eq_or_ne rows [] with rfl | some_
    · rw [List.perm_nil.mp perm]
    · have some' : others ≠ [] := fun none_ => some_ (List.nil_perm.mp (none_ ▸ perm))
      have counts := addRows_counts size some'
      rw [Multiset.coe_eq_coe.mpr perm] at counts
      exact (addRows_counts size some_).unique counts
        (by rw [addRows_bucketSize, addRows_bucketSize])
  · -- Each slot holds its count in 32 bits.
    have shows_ := addRows_shows size rows
    refine ⟨?_, shows_.covers, shows_.total, shows_.earliest, shows_.latest⟩
    intro place bucket found level
    rw [shows_.slots place bucket found level, UInt32.toNat_ofNat']

/-- A slot has no room for the last of `2 ^ 32` rows. -/
theorem addRows_wraps : ¬Shows ((ofSize .oneSecond).addRows (List.replicate (2 ^ 32) (0, .info)))
    (List.replicate (2 ^ 32) (0, .info)) fun number slot => slot.toNat = number := by
  intro exact_
  have fed : ((0, LogLevel.info) : Int × LogLevel) ∈ List.replicate (2 ^ 32) (0, LogLevel.info) :=
    List.mem_replicate.mpr ⟨by decide, rfl⟩
  -- All rows are in one bucket, whose 32-bit slot cannot hold their number.
  obtain ⟨place, placed, start, stop⟩ := exact_.covers _ fed
  obtain ⟨inside, -⟩ := bucketOf_eq_some_iff.mp placed
  have slot := exact_.slots place _ (List.getElem?_eq_getElem inside) .info
  rw [rowsBetween, List.countP_replicate, if_pos (decide_eq_true ⟨start, stop, rfl⟩)] at slot
  exact absurd slot (Nat.ne_of_lt (UInt32.toNat_lt _))

end Runs

end HistogramBucketIndex

end Loglib
