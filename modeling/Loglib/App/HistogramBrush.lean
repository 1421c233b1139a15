import Loglib.App.AdvancedFilter
import Loglib.App.HistogramBudget
import Loglib.App.HistogramEvents

/-! The brush of the histogram: the buckets of the visual columns that are swept, and the time
filter that is installed for them. -/

namespace Loglib

/-- How many buckets each visual column merges, and how many columns there are. -/
structure VisualLayout where
  stride : Nat
  columnCount : Nat
deriving DecidableEq

namespace VisualLayout

/-- `ComputeVisualLayout`, with the ceiling of the quotient of two doubles. -/
def compute (ceilDivide : Nat → Nat → Nat) (nBuckets plotWidth : Nat) : VisualLayout :=
  if nBuckets = 0 ∨ plotWidth = 0 then ⟨1, 0⟩
  else
    let stride := max 1 (ceilDivide nBuckets plotWidth)
    ⟨stride, (nBuckets + stride - 1) / stride⟩

/-- `BucketRangeForColumn`: the merged buckets, without the end. -/
def bucketRangeForColumn (layout : VisualLayout) (nBuckets column : Nat) : Nat × Nat :=
  (column * layout.stride, min nBuckets (column * layout.stride + layout.stride))

/-- `BucketRangeForVisualColumn`. -/
def bucketRangeForVisualColumn (layout : VisualLayout) (nBuckets column : Nat) : Nat × Nat :=
  if layout.columnCount ≤ column then (0, 0) else layout.bucketRangeForColumn nBuckets column

/-- A bucket that is merged into one of the columns from the first to the last. -/
def Sweeps (layout : VisualLayout) (nBuckets startColumn endColumn bucket : Nat) : Prop :=
  ∃ column, startColumn ≤ column ∧ column ≤ endColumn ∧
    (layout.bucketRangeForVisualColumn nBuckets column).1 ≤ bucket ∧
      bucket < (layout.bucketRangeForVisualColumn nBuckets column).2

/-- Every column merges some of the buckets. -/
def Suits (layout : VisualLayout) (nBuckets : Nat) : Prop :=
  ∀ column < layout.columnCount, 0 < layout.stride ∧ column * layout.stride < nBuckets

section Columns

variable {layout : VisualLayout} {nBuckets startColumn endColumn column bucket : Nat}

/-- However many buckets a column merges, the columns of a layout reach to the last bucket
and not beyond. -/
theorem compute_suits (ceilDivide : Nat → Nat → Nat) (nBuckets plotWidth : Nat) :
    (compute ceilDivide nBuckets plotWidth).Suits nBuckets := by
  intro column inside
  unfold compute at inside ⊢
  by_cases empty : nBuckets = 0 ∨ plotWidth = 0
  · rw [if_pos empty] at inside
    exact absurd inside (Nat.not_lt_zero _)
  · rw [if_neg empty] at inside ⊢
    have positive : 0 < max 1 (ceilDivide nBuckets plotWidth) :=
      Nat.lt_of_lt_of_le Nat.one_pos (Nat.le_max_left _ _)
    refine ⟨positive, ?_⟩
    -- The number of columns is rounded up, so the last one starts before the last bucket.
    have room := (Nat.le_div_iff_mul_le positive).mp (Nat.succ_le_of_lt inside)
    rw [Nat.succ_mul] at room
    dsimp only
    omega

/-- The buckets of a column that is shown. -/
theorem bucketRange_eq (inside : column < layout.columnCount) :
    layout.bucketRangeForVisualColumn nBuckets column =
      (column * layout.stride, min nBuckets (column * layout.stride + layout.stride)) := by
  rw [bucketRangeForVisualColumn, if_neg (Nat.not_le.mpr inside), bucketRangeForColumn]

/-- The buckets of neighbouring columns lie next to each other. -/
theorem sweeps_iff (suits : layout.Suits nBuckets) (inside : endColumn < layout.columnCount)
    (ordered : startColumn ≤ endColumn) :
    layout.Sweeps nBuckets startColumn endColumn bucket ↔
      (layout.bucketRangeForVisualColumn nBuckets startColumn).1 ≤ bucket ∧
        bucket < (layout.bucketRangeForVisualColumn nBuckets endColumn).2 := by
  have positive := (suits endColumn inside).1
  rw [bucketRange_eq (Nat.lt_of_le_of_lt ordered inside), bucketRange_eq inside]
  dsimp only
  constructor
  · rintro ⟨column, after, before, low, high⟩
    rw [bucketRange_eq (Nat.lt_of_le_of_lt before inside)] at low high
    have first := Nat.mul_le_mul_right layout.stride after
    have last := Nat.mul_le_mul_right layout.stride before
    dsimp only at low high
    omega
  · rintro ⟨low, high⟩
    -- The bucket is in the column with its quotient.
    have split := Nat.div_add_mod' bucket layout.stride
    have small := Nat.mod_lt bucket positive
    have after : startColumn ≤ bucket / layout.stride := (Nat.le_div_iff_mul_le positive).mpr low
    have before : bucket / layout.stride ≤ endColumn := by
      refine Nat.le_of_lt_succ ((Nat.div_lt_iff_lt_mul positive).mpr ?_)
      rw [Nat.succ_mul]
      omega
    refine ⟨bucket / layout.stride, after, before, ?_⟩
    rw [bucketRange_eq (Nat.lt_of_le_of_lt before inside)]
    dsimp only
    omega

/-- The swept columns have buckets, from those of the first column to those of the last one. -/
theorem sweptRange (suits : layout.Suits nBuckets) (inside : endColumn < layout.columnCount)
    (ordered : startColumn ≤ endColumn) :
    (layout.bucketRangeForVisualColumn nBuckets startColumn).1 <
      (layout.bucketRangeForVisualColumn nBuckets startColumn).2 ∧
      (layout.bucketRangeForVisualColumn nBuckets endColumn).1 <
        (layout.bucketRangeForVisualColumn nBuckets endColumn).2 ∧
      (layout.bucketRangeForVisualColumn nBuckets startColumn).1 ≤
        (layout.bucketRangeForVisualColumn nBuckets endColumn).1 ∧
      (layout.bucketRangeForVisualColumn nBuckets endColumn).2 ≤ nBuckets := by
  have startInside := Nat.lt_of_le_of_lt ordered inside
  obtain ⟨positive, first⟩ := suits startColumn startInside
  obtain ⟨-, last⟩ := suits endColumn inside
  -- Later columns start at later buckets.
  have onward := Nat.mul_le_mul_right layout.stride ordered
  rw [bucketRange_eq startInside, bucketRange_eq inside]
  dsimp only
  omega

end Columns

end VisualLayout

/-- The part of `HistogramWidget::mouseReleaseEvent` after a drag: the bounds of the buckets that
are swept. -/
def HistogramBucketIndex.dragReleased (index : HistogramBucketIndex) (layout : VisualLayout)
    (startColumn endColumn : Nat) :
    Option (Int × Int) :=
  let (startBegin, startEnd) := layout.bucketRangeForVisualColumn index.buckets.length startColumn
  let (endBegin, endEnd) := layout.bucketRangeForVisualColumn index.buckets.length endColumn
  if startEnd ≤ startBegin ∨ endEnd ≤ endBegin then none
  else some (index.bucketStart startBegin, index.bucketEnd (endEnd - 1) - 1)

section Filters

/-- `ColumnKeysForRow`. -/
def columnKeysForRow (row : Nat) (columns : List Column) : List Bytes :=
  (columns[row]?.map (·.keys)).getD []

/-- `FilterTimeStampSubmitted`: the rule that is added, if the bounds are not rejected. -/
def filterTimeStampSubmitted (columns : List Column) (row : Nat)
    (beginTimeStamp endTimeStamp : Option Int64) : Option LeafRule :=
  match beginTimeStamp, endTimeStamp with
  | none, none => none
  | some first, some last =>
    if last.toInt < first.toInt then none
    else some ⟨.time, columnKeysForRow row columns, none, none, some first, some last,
      none, none, []⟩
  | first, last =>
    some ⟨.time, columnKeysForRow row columns, none, none, first, last, none, none, []⟩

/-- `AddTimeRangeFilterFromHistogram`: the rule that is added, if there is a time column. -/
def addTimeRangeFilterFromHistogram (columns : List Column) (timeColumnIndex : Option Nat)
    (fromEpochMicros toEpochMicros : Int64) :
    Option LeafRule :=
  match timeColumnIndex with
  | none => none
  | some column =>
    if toEpochMicros.toInt < fromEpochMicros.toInt then
      filterTimeStampSubmitted columns column (some toEpochMicros) (some fromEpochMicros)
    else filterTimeStampSubmitted columns column (some fromEpochMicros) (some toEpochMicros)

end Filters

namespace HistogramBucketIndex

variable {index : HistogramBucketIndex} {layout : VisualLayout} {startColumn endColumn : Nat}

/-- The first instant of some columns. -/
def sweptFirst (index : HistogramBucketIndex) (layout : VisualLayout) (startColumn : Nat) : Int :=
  index.bucketStart (layout.bucketRangeForVisualColumn index.buckets.length startColumn).1

/-- The last instant of some columns. -/
def sweptLast (index : HistogramBucketIndex) (layout : VisualLayout) (endColumn : Nat) : Int :=
  index.bucketEnd ((layout.bucketRangeForVisualColumn index.buckets.length endColumn).2 - 1) - 1

/-- A drag over columns reports their instants. -/
theorem dragReleased_eq (suits : layout.Suits index.buckets.length)
    (inside : endColumn < layout.columnCount)
    (ordered : startColumn ≤ endColumn) :
    index.dragReleased layout startColumn endColumn = some
      (index.sweptFirst layout startColumn, index.sweptLast layout endColumn) ∧
      index.sweptFirst layout startColumn ≤ index.sweptLast layout endColumn := by
  obtain ⟨startSome, endSome, onward, -⟩ := VisualLayout.sweptRange suits inside ordered
  have positive := index.bucketSize.width_pos
  unfold dragReleased sweptFirst sweptLast bucketEnd bucketStart
  generalize layout.bucketRangeForVisualColumn index.buckets.length startColumn = startRange at *
  generalize layout.bucketRangeForVisualColumn index.buckets.length endColumn = endRange at *
  dsimp only
  -- Both columns have buckets, so the drag reports a range.
  rw [if_neg (by omega)]
  have before : (startRange.1 : Int) ≤ ((endRange.2 - 1 : Nat) : Int) := by omega
  have scaled := Int.mul_le_mul_of_nonneg_right before positive.le
  exact ⟨rfl, by omega⟩

/-- An instant is counted in a swept bucket exactly if it is one of the instants of the columns. -/
theorem swept_iff (suits : layout.Suits index.buckets.length)
    (inside : endColumn < layout.columnCount)
    (ordered : startColumn ≤ endColumn) {ts : Int} :
    (∃ bucket, index.bucketOf ts = some bucket ∧
      layout.Sweeps index.buckets.length startColumn endColumn bucket) ↔
      index.sweptFirst layout startColumn ≤ ts ∧ ts ≤ index.sweptLast layout endColumn := by
  obtain ⟨-, endSome, -, within⟩ := VisualLayout.sweptRange suits inside ordered
  have positive := index.bucketSize.width_pos
  simp only [VisualLayout.sweeps_iff suits inside ordered]
  unfold sweptFirst sweptLast bucketEnd bucketStart
  generalize layout.bucketRangeForVisualColumn index.buckets.length startColumn = startRange at *
  generalize layout.bucketRangeForVisualColumn index.buckets.length endColumn = endRange at *
  -- Multiplying out the quotient turns the bounds on the bucket into bounds on the instant.
  have low : (startRange.1 : Int) ≤ (ts - index.origin) / index.bucketSize.width ↔
      index.origin + startRange.1 * index.bucketSize.width ≤ ts := by
    rw [Int.le_ediv_iff_mul_le positive]
    omega
  have stop : index.origin + ((endRange.2 - 1 : Nat) : Int) * index.bucketSize.width +
    index.bucketSize.width =
      index.origin + endRange.2 * index.bucketSize.width := by
    have one : ((endRange.2 - 1 : Nat) : Int) = endRange.2 - 1 := by omega
    rw [one]
    ring
  have high : (ts - index.origin) / index.bucketSize.width < endRange.2 ↔
      ts ≤ index.origin + ((endRange.2 - 1 : Nat) : Int) * index.bucketSize.width +
        index.bucketSize.width - 1 := by
    rw [stop, Int.ediv_lt_iff_lt_mul positive]
    omega
  rw [← low, ← high]
  constructor
  · rintro ⟨bucket, held, after, before⟩
    obtain ⟨-, number⟩ := bucketOf_eq_some_iff.mp held
    omega
  · rintro ⟨after, before⟩
    exact ⟨((ts - index.origin) / index.bucketSize.width).toNat,
      bucketOf_eq_some_iff.mpr ⟨by omega, by omega⟩, by omega, by omega⟩

end HistogramBucketIndex

section Selection

variable {makeStringMatcher : Bytes → LeafRuleMatch → Bytes → Bool}
    {vformat : Bytes → LogValue → Bytes} {cheapFirst : CheapFirstSort}
  {source : HistogramSource} {index : HistogramBucketIndex} {layout : VisualLayout}
    {startColumn endColumn row timeColumn : Nat}
  {first last : Int}

/-- The rule that a drag over some columns adds. -/
def brushRule (source : HistogramSource) (index : HistogramBucketIndex) (layout : VisualLayout)
    (startColumn endColumn : Nat) :
    Option LeafRule :=
  (index.dragReleased layout startColumn endColumn).bind fun bounds =>
    addTimeRangeFilterFromHistogram source.table.columns
      source.table.configuration.firstTimeColumnIndex
      (Int64.ofInt bounds.1) (Int64.ofInt bounds.2)

/-- The row is counted in a bucket of the swept columns. -/
def HistogramSource.CountedIn (source : HistogramSource) (index : HistogramBucketIndex)
    (layout : VisualLayout)
    (startColumn endColumn row : Nat) : Prop :=
  ∃ bucket, (source.timestampForRow row).bind index.bucketOf = some bucket ∧
    layout.Sweeps index.buckets.length startColumn endColumn bucket

/-- The compiled filter of a rule accepts the row. -/
def keepsRow (makeStringMatcher : Bytes → LeafRuleMatch → Bytes → Bool)
    (vformat : Bytes → LogValue → Bytes)
    (cheapFirst : CheapFirstSort) (table : LogTable) (rule : LeafRule) (row : Nat) : Bool :=
  let compiled := compileExpression makeStringMatcher cheapFirst table.columns (some table)
    (.leaf rule)
  evaluateExpression vformat compiled.predicates table row compiled.node

/-- The value is an instant from the first to the last one. -/
def InSpan (first last : Int) (value : LogValue) : Prop :=
  ∃ instant, value.asEpochMicroseconds = some instant ∧ first ≤ instant ∧ instant ≤ last

/-- The value is an instant from the first to the last one, or an unsigned zero behind them all. -/
def PassesSpan (first last : Int) (value : LogValue) : Prop :=
  InSpan first last value ∨ (last < 0 ∧ value = .uint64 0)

/-- A row is counted in the swept columns exactly if the time column shows one of their instants. -/
theorem countedIn_iff (suits : layout.Suits index.buckets.length)
    (inside : endColumn < layout.columnCount)
    (ordered : startColumn ≤ endColumn)
    (held : source.table.configuration.firstTimeColumnIndex = some timeColumn) :
    source.CountedIn index layout startColumn endColumn row ↔
      InSpan (index.sweptFirst layout startColumn) (index.sweptLast layout endColumn)
        (source.table.getValue row timeColumn) := by
  unfold HistogramSource.CountedIn HistogramSource.timestampForRow InSpan
  rw [held]
  show (∃ bucket, ((source.table.getValue row timeColumn).asEpochMicroseconds).bind index.bucketOf =
    some bucket ∧ _) ↔ _
  -- A value without an instant is counted nowhere.
  cases (source.table.getValue row timeColumn).asEpochMicroseconds with
  | none =>
    constructor
    · rintro ⟨_, none_, _⟩
      cases none_
    · rintro ⟨_, none_, _⟩
      cases none_
  | some ts =>
    rw [Option.bind_some, HistogramBucketIndex.swept_iff suits inside ordered]
    constructor
    · intro within
      exact ⟨ts, rfl, within⟩
    · rintro ⟨instant, same, within⟩
      cases same
      exact within

/-- The rule of a range that fits. -/
theorem addTimeRangeFilterFromHistogram_eq (columns : List Column)
    (firstFits : HistogramBucketIndex.Fits64 first)
    (lastFits : HistogramBucketIndex.Fits64 last) (ordered : first ≤ last) :
    addTimeRangeFilterFromHistogram columns (some timeColumn) (Int64.ofInt first)
      (Int64.ofInt last) =
      some ⟨.time, columnKeysForRow timeColumn columns, none, none, some (Int64.ofInt first),
        some (Int64.ofInt last), none, none, []⟩ := by
  -- Both ends fit into 64 bits, so they keep their order.
  have straight : ¬(Int64.ofInt last).toInt < (Int64.ofInt first).toInt := by
    rw [Int64.toInt_ofInt_of_le lastFits.1 lastFits.2,
      Int64.toInt_ofInt_of_le firstFits.1 firstFits.2]
    omega
  unfold addTimeRangeFilterFromHistogram filterTimeStampSubmitted
  dsimp only
  rw [if_neg straight, if_neg straight]

/-- A drag over some columns adds the rule of their instants. -/
theorem brushRule_eq (suits : layout.Suits index.buckets.length)
    (inside : endColumn < layout.columnCount)
    (ordered : startColumn ≤ endColumn)
    (held : source.table.configuration.firstTimeColumnIndex = some timeColumn)
    (firstFits : HistogramBucketIndex.Fits64 (index.sweptFirst layout startColumn))
    (lastFits : HistogramBucketIndex.Fits64 (index.sweptLast layout endColumn)) :
    brushRule source index layout startColumn endColumn = some ⟨.time,
      columnKeysForRow timeColumn source.table.columns, none, none,
      some (Int64.ofInt (index.sweptFirst layout startColumn)),
        some (Int64.ofInt (index.sweptLast layout endColumn)), none, none, []⟩ := by
  obtain ⟨released, span⟩ := HistogramBucketIndex.dragReleased_eq suits inside ordered
  rw [brushRule, released, Option.bind_some, held]
  exact addTimeRangeFilterFromHistogram_eq source.table.columns firstFits lastFits span

/-- A time rule is compiled to the predicate of the column that it is bound to, and without one it
accepts every row. -/
theorem keepsRow_time_iff (table : LogTable) (keys : List Bytes)
    (firstFits : HistogramBucketIndex.Fits64 first)
    (lastFits : HistogramBucketIndex.Fits64 last) (ordered : first ≤ last) :
    keepsRow makeStringMatcher vformat cheapFirst table
        ⟨.time, keys, none, none, some (Int64.ofInt first), some (Int64.ofInt last), none, none,
          []⟩ row = true ↔
      ∀ bound, resolveLeafColumnByKeys keys table.columns = some bound → PassesSpan first last
        (table.getValue row bound) := by
  unfold keepsRow
  dsimp only
  rw [evaluate_compileExpression, accepts, truthOf]
  dsimp only
  -- A filter without a column keeps every row.
  cases resolveLeafColumnByKeys keys table.columns with
  | none =>
    refine iff_of_true rfl fun bound none_ => ?_
    cases none_
  -- The predicate asks the cell of the column that has been found.
  | some bound =>
    show matchesRow vformat table row (.timeRange ⟨bound, Int64.ofInt first, Int64.ofInt last⟩) =
      true ↔ _
    rw [matchesRow, TimeRangeRowPredicate.matchesRow_iff]
    unfold TimeRangeRowPredicate.InRange TimeRangeRowPredicate.LetsZeroPass PassesSpan InSpan
    rw [Int64.toInt_ofInt_of_le lastFits.1 lastFits.2,
      Int64.toInt_ofInt_of_le firstFits.1 firstFits.2]
    constructor
    · rintro passes other ⟨rfl⟩
      exact passes.imp_right fun zero => ⟨zero.2.2, zero.1⟩
    · intro passes
      exact (passes bound rfl).imp_right fun zero => ⟨zero.2, ordered, zero.1⟩

/-- Without a time column nothing is counted. -/
theorem rebuiltIndex_of_none (size : HistogramBucketSize)
    (none_ : source.table.configuration.firstTimeColumnIndex = none) :
    (source.rebuiltIndex size).buckets = [] := by
  have idle (index : HistogramBucketIndex) (row : Nat) : source.countRow index row = index := by
    rw [HistogramSource.countRow, HistogramSource.timestampForRow, none_]
    rfl
  unfold HistogramSource.rebuiltIndex HistogramSource.indexOfFirst
  rw [List.foldl_fixed' fun row => idle _ row]
  rfl

/-- When the filter for a span is the one of the bars: it is bound to the time column, and no
unsigned zero meets a span before the epoch; or it is bound to another column, whose values lie in
the span with those of the time column. -/
def BrushHolds (table : LogTable) (timeColumn : Nat) (first last : Int) : Prop :=
  match resolveLeafColumnByKeys (columnKeysForRow timeColumn table.columns) table.columns with
  | none => ∀ row < table.rowCount, InSpan first last (table.getValue row timeColumn)
  | some bound =>
    if bound = timeColumn then ¬(last < 0 ∧ ∃ row < table.rowCount,
      table.getValue row timeColumn = .uint64 0)
    else ∀ row < table.rowCount, PassesSpan first last (table.getValue row bound) ↔
      InSpan first last (table.getValue row timeColumn)

/-- Only an unsigned zero passes a span without being in it, and only one before the epoch. -/
theorem passesSpan_iff_inSpan (value : LogValue) :
    (PassesSpan first last value ↔ InSpan first last value) ↔ ¬(last < 0 ∧ value = .uint64 0) := by
  unfold PassesSpan
  -- The two differ only on zero, which a span in front of it takes for unsigned slots.
  constructor
  · rintro same ⟨before, rfl⟩
    obtain ⟨instant, converted, -, below⟩ := same.mp (.inr ⟨before, rfl⟩)
    obtain rfl : (0 : Int) = instant := Option.some.inj converted
    omega
  · intro other
    exact ⟨fun passes => passes.resolve_right other, .inl⟩

/-- The time filter that a drag over columns of the histogram adds accepts exactly the
rows that are counted in their buckets if and only if the columns and the values of the
table are as `BrushHolds` says. -/
theorem brush_selectsBars_iff (source : HistogramSource) (size : HistogramBucketSize)
    (ceilDivide : Nat → Nat → Nat) (plotWidth : Nat)
    (built : index = source.rebuiltIndex size)
    (laidOut : layout = .compute ceilDivide index.buckets.length plotWidth)
    (inside : endColumn < layout.columnCount) (ordered : startColumn ≤ endColumn)
    (firstFits : HistogramBucketIndex.Fits64 (index.sweptFirst layout startColumn))
    (endFits : HistogramBucketIndex.Fits64 (index.sweptLast layout endColumn + 1)) :
    ∃ timeColumn rule, source.table.configuration.firstTimeColumnIndex = some timeColumn ∧
      brushRule source index layout startColumn endColumn = some rule ∧
      ((∀ row < source.table.rowCount,
          keepsRow makeStringMatcher vformat cheapFirst source.table rule row = true ↔
            source.CountedIn index layout startColumn endColumn row) ↔
        BrushHolds source.table timeColumn (index.sweptFirst layout startColumn)
          (index.sweptLast layout endColumn)) := by
  have suits : layout.Suits index.buckets.length := by
    rw [laidOut]
    exact VisualLayout.compute_suits ceilDivide _ plotWidth
  obtain ⟨-, span⟩ := HistogramBucketIndex.dragReleased_eq suits inside ordered
  have lastFits : HistogramBucketIndex.Fits64 (index.sweptLast layout endColumn) := by
    unfold HistogramBucketIndex.Fits64 at firstFits endFits ⊢
    omega
  cases held : source.table.configuration.firstTimeColumnIndex with
  | none =>
    rw [laidOut, built, rebuiltIndex_of_none size held] at inside
    exact absurd inside (Nat.not_lt_zero _)
  | some timeColumn =>
    -- Rows are counted for their instants in the span, and kept for what the bound column shows.
    refine ⟨timeColumn, _, rfl, brushRule_eq suits inside ordered held firstFits lastFits, ?_⟩
    simp only [keepsRow_time_iff source.table _ firstFits lastFits span,
      countedIn_iff suits inside ordered held]
    unfold BrushHolds
    cases resolveLeafColumnByKeys (columnKeysForRow timeColumn source.table.columns)
      source.table.columns with
    | none => simp
    | some bound =>
      simp only [Option.some.injEq, forall_eq']
      by_cases same : bound = timeColumn
      · -- In its own column the filter differs from the bars only for an unsigned zero.
        subst same
        rw [if_pos rfl]
        simp only [passesSpan_iff_inSpan]
        constructor
        · rintro each ⟨before, row, near, zero⟩
          exact each row near ⟨before, zero⟩
        · rintro none_ row near ⟨before, zero⟩
          exact none_ ⟨before, row, near, zero⟩
      · rw [if_neg same]

end Selection

section Zero

/-- A table with one time column, whose rows hold the microsecond before the epoch and an
unsigned zero. -/
def zeroTable : LogTable :=
  (LogTable.run (fun _ _ => none) (.initial ⟨[{
      header := bytes "ts", keys := [bytes "ts"], printFormat := defaultPrintFormat, type :=
        .time, parseFormats := [],
      levelMapping := [], autoDetect := false }], ⟨-1, false⟩⟩)
    [.beginStreaming (some (.stream .empty)),
      .appendBatch ⟨[.ofField 0 1 0 (.int64 (-1)), .ofField 0 2 0 (.uint64 0)], [],
      [bytes "ts"], []⟩]).getD
    (.initial ⟨[], ⟨-1, false⟩⟩)

/-- The table of one stream. -/
def zeroSource : HistogramSource := ⟨zeroTable, fun _ => []⟩

/-- The bar before the epoch counts the first row alone, and the filter for it accepts the zero of
the second row too. -/
theorem brush_acceptsUnsignedZero :
    ¬∀ (source : HistogramSource) (size : HistogramBucketSize) (ceilDivide : Nat → Nat → Nat)
      (plotWidth startColumn endColumn : Nat),
      endColumn < (VisualLayout.compute ceilDivide (source.rebuiltIndex size).buckets.length
        plotWidth).columnCount →
      startColumn ≤ endColumn →
      ∃ rule, brushRule source (source.rebuiltIndex size)
          (.compute ceilDivide (source.rebuiltIndex size).buckets.length plotWidth) startColumn
            endColumn = some rule ∧
        ∀ row < source.table.rowCount,
          keepsRow (fun _ _ _ => false) (fun _ _ => []) .stable source.table rule row = true ↔
            source.CountedIn (source.rebuiltIndex size)
              (.compute ceilDivide (source.rebuiltIndex size).buckets.length plotWidth) startColumn
                endColumn row := by
  intro claim
  obtain ⟨rule, added, exact_⟩ :=
    claim zeroSource .oneSecond (fun nBuckets plotWidth =>
      (nBuckets + plotWidth - 1) / plotWidth) 800 0 0
    (by decide) le_rfl
  -- The sweep is the second before the epoch.
  have first : (zeroSource.rebuiltIndex .oneSecond).sweptFirst (.compute (fun nBuckets plotWidth =>
      (nBuckets + plotWidth - 1) / plotWidth) (zeroSource.rebuiltIndex .oneSecond).buckets.length
        800) 0 = -1000000 := by decide
  have last : (zeroSource.rebuiltIndex .oneSecond).sweptLast (.compute (fun nBuckets plotWidth =>
      (nBuckets + plotWidth - 1) / plotWidth) (zeroSource.rebuiltIndex .oneSecond).buckets.length
        800) 0 = -1 := by decide
  have bounds := @brushRule_eq zeroSource (zeroSource.rebuiltIndex .oneSecond)
    (.compute (fun nBuckets plotWidth =>
    (nBuckets + plotWidth - 1) / plotWidth) (zeroSource.rebuiltIndex .oneSecond).buckets.length 800)
      0 0 0
    (VisualLayout.compute_suits _ _ _) (by decide) le_rfl (by decide)
      (first ▸ ⟨by decide, by decide⟩) (last ▸ ⟨by decide, by decide⟩)
  rw [first, last] at bounds
  obtain rfl := Option.some.inj (bounds.symm.trans added)
  -- The clamped bounds let the zero of the second row pass.
  have kept : keepsRow (fun _ _ _ => false) (fun _ _ => []) .stable zeroSource.table
      ⟨.time, [bytes "ts"], none, none, some (Int64.ofInt (-1000000)), some (Int64.ofInt (-1)),
        none, none, []⟩ 1 = true := by
    refine (keepsRow_time_iff zeroSource.table _ ⟨by decide, by decide⟩ ⟨by decide, by decide⟩
      (by decide)).mpr fun bound resolved => ?_
    have own : resolveLeafColumnByKeys [bytes "ts"] zeroSource.table.columns = some 0 := by decide
    obtain rfl := Option.some.inj (own.symm.trans resolved)
    exact .inr ⟨by decide, by decide⟩
  obtain ⟨bucket, placed, column, -, last, -, before⟩ := (exact_ 1 (by decide)).mp kept
  obtain rfl := Nat.le_zero.mp last
  -- The zero is counted in the bucket behind.
  have later : (zeroSource.timestampForRow 1).bind (zeroSource.rebuiltIndex .oneSecond).bucketOf =
      some 1 := by decide
  obtain rfl := Option.some.inj (later.symm.trans placed)
  revert before
  decide

end Zero

/-- The first of two bars a second apart is swept, and the filter accepts the first row alone. -/
theorem brush_selectsBars_first :
    ∃ rule, brushRule (HistogramModel.timedSource [0, 1000000])
      ((HistogramModel.timedSource [0, 1000000]).rebuiltIndex .oneSecond)
        (.compute (fun nBuckets plotWidth => (nBuckets + plotWidth - 1) / plotWidth)
          ((HistogramModel.timedSource [0, 1000000]).rebuiltIndex .oneSecond).buckets.length 800) 0
            0 = some rule ∧
      ∀ row < (HistogramModel.timedSource [0, 1000000]).table.rowCount,
        keepsRow (fun _ _ _ => false) (fun _ _ => []) .stable
          (HistogramModel.timedSource [0, 1000000]).table rule row = true ↔
          (HistogramModel.timedSource [0, 1000000]).CountedIn
            ((HistogramModel.timedSource [0, 1000000]).rebuiltIndex .oneSecond)
            (.compute (fun nBuckets plotWidth => (nBuckets + plotWidth - 1) / plotWidth)
              ((HistogramModel.timedSource [0, 1000000]).rebuiltIndex .oneSecond).buckets.length
                800) 0 0 row := by
  obtain ⟨timeColumn, rule, held, added, exact_⟩ :=
    @brush_selectsBars_iff (fun _ _ _ => false) (fun _ _ => []) .stable _ _ 0 0
    (HistogramModel.timedSource [0, 1000000]) .oneSecond (fun nBuckets plotWidth =>
      (nBuckets + plotWidth - 1) / plotWidth) 800 rfl rfl
    (by decide) le_rfl ⟨by decide, by decide⟩ ⟨by decide, by decide⟩
  -- The column of the brush is the only one, so no earlier one has its keys.
  have first : (HistogramModel.timedSource [0, 1000000]).table.configuration.firstTimeColumnIndex =
      some 0 := by decide
  obtain rfl := Option.some.inj (first.symm.trans held)
  refine ⟨rule, added, exact_.mpr ?_⟩
  have own : resolveLeafColumnByKeys
    (columnKeysForRow 0 (HistogramModel.timedSource [0, 1000000]).table.columns)
      (HistogramModel.timedSource [0, 1000000]).table.columns = some 0 := by decide
  unfold BrushHolds
  rw [own]
  dsimp only
  rw [if_pos rfl]
  exact fun before => absurd before.1 (by decide)

end Loglib
