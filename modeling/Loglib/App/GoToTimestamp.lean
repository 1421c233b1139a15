import Loglib.App.FilterProxyRuns
import Loglib.App.ModelRows
import Loglib.Order.GappedSearch

/-! Go to a timestamp: the first row that the view shows at or after it, by binary search where the
timestamps ascend. -/

namespace Loglib

namespace LogFilterModel

section Search

/-- Row of the log under a row of the proxy, `none` for a broken mapping. -/
def proxyRowToSource (proxy : LogFilterModel) (proxyRow : Nat) : Option Nat :=
  proxy.acceptedSourceRows[proxyRow]?.bind proxy.source.sourceRowToLogRow

/-- The rows of the log that the proxy shows, from its first row on. -/
def shownRows (proxy : LogFilterModel) : List Nat :=
  (List.range proxy.acceptedSourceRows.length).filterMap proxy.proxyRowToSource

/-- Row of the proxy that shows a row of the log, mapped through both proxies. -/
def proxyRowFor (proxy : LogFilterModel) (sourceRow : Nat) : Option Nat :=
  (proxy.source.logRowToSourceRow sourceRow).bind fun midRow =>
    proxy.sourceRowToProxyRow[midRow]?.join

/-- A row of the log maps through both proxies. -/
def isVisible (proxy : LogFilterModel) (sourceRow : Nat) : Bool :=
  (proxy.proxyRowFor sourceRow).isSome

variable (tsFor : Nat → Option Int) (targetMicros : Int)

/-- The largest timestamp there is. -/
def endOfTime : Int := 2 ^ 63 - 1

/-- One shown row in the walk for the smallest row from `lo` on. -/
def smallestStep (lo : Nat) (best : Option Nat) (sourceRow : Nat) : Option Nat :=
  if sourceRow < lo then best
  else
    match tsFor sourceRow with
    | none => best
    | some ts =>
      if ts < targetMicros then best
      else if best.all (sourceRow < ·) then some sourceRow else best

/-- One shown row in the walk for the smallest timestamp. -/
def earliestStep (best : Option Nat × Int) (sourceRow : Nat) : Option Nat × Int :=
  match tsFor sourceRow with
  | none => best
  | some ts =>
    if ts < targetMicros then best
    else if ts < best.2 then (some sourceRow, ts) else best

/-- Without a sort, over timestamps that ascend. -/
def findInAscending (proxy : LogFilterModel) : Option Nat :=
  let sourceRowCount := proxy.source.table.rowCount
  let lo := GappedSearch.lowerBound tsFor targetMicros sourceRowCount 0 sourceRowCount
  if sourceRowCount ≤ lo then none
  -- The row that the search ends at may be hidden, or have no timestamp.
  else if (tsFor lo).any (targetMicros ≤ ·) && proxy.isVisible lo then some lo
  else proxy.shownRows.foldl (smallestStep tsFor targetMicros lo) none

/-- Without a sort, over timestamps in any order. -/
def findInUnordered (proxy : LogFilterModel) : Option Nat :=
  (proxy.shownRows.foldl (earliestStep tsFor targetMicros) (none, endOfTime)).1

/-- Under the sort of the user. -/
def findInDisplayOrder (proxy : LogFilterModel) : Option Nat :=
  proxy.shownRows.find? fun sourceRow => (tsFor sourceRow).any (targetMicros ≤ ·)

/-- `FindFirstRowAtOrAfterTimestamp`, with what the model says of its timestamps. -/
def findFirstRowAtOrAfterTimestamp (proxy : LogFilterModel) (timestampsMonotonic : Bool)
    (timeCol : Option Nat)
    (targetMicros : Int) : Option Nat :=
  match timeCol with
  | none => none
  | some timeCol =>
    let tsFor := LogModel.timestampAt proxy.source.table timeCol
    if proxy.source.table.rowCount = 0 then none
    else
      -- Bisection where rows and times ascend, the earliest of all rows where only rows do, and
      -- under a sort the first that is shown.
      match proxy.sortColumn, timestampsMonotonic with
      | none, true => proxy.findInAscending tsFor targetMicros
      | none, false => proxy.findInUnordered tsFor targetMicros
      | some _, _ => proxy.findInDisplayOrder tsFor targetMicros

end Search

section Shown

variable {proxy : LogFilterModel} {vformat : Bytes → LogValue → Bytes}

/-- The two mappings of an exact proxy are inverse to each other. -/
theorem Exact.proxyRowFor_iff (exact_ : proxy.Exact vformat) {row proxyRow : Nat} :
    proxy.proxyRowFor row = some proxyRow ↔ proxy.proxyRowToSource proxyRow = some row := by
  unfold proxyRowFor proxyRowToSource
  simp only [Option.bind_eq_some_iff, Option.join_eq_some_iff]
  -- The two lookups go through the same row of the middle model.
  constructor
  · intro given
    obtain ⟨midRow, mapped, placed⟩ := given
    exact ⟨midRow, (exact_.inverse midRow proxyRow).mp placed,
      SourceModel.logRowToSourceRow_eq_some_iff.mp mapped⟩
  · intro given
    obtain ⟨midRow, placed, shown⟩ := given
    exact ⟨midRow, SourceModel.logRowToSourceRow_eq_some_iff.mpr shown,
      (exact_.inverse midRow proxyRow).mpr placed⟩

/-- The shown rows are those of some row of the proxy. -/
theorem mem_shownRows {row : Nat} :
    row ∈ proxy.shownRows ↔ ∃ proxyRow, proxy.proxyRowToSource proxyRow = some row := by
  unfold shownRows
  simp only [List.mem_filterMap, List.mem_range]
  -- A shown row stands at some proxy row, and that lies inside the table.
  constructor
  · intro given
    obtain ⟨proxyRow, _, shown⟩ := given
    exact ⟨proxyRow, shown⟩
  · intro given
    obtain ⟨proxyRow, shown⟩ := given
    obtain ⟨midRow, placed, _⟩ := Option.bind_eq_some_iff.mp shown
    exact ⟨proxyRow, (List.getElem?_eq_some_iff.mp placed).1, shown⟩

/-- A row of the log is visible if the proxy shows it. -/
theorem Exact.isVisible_iff (exact_ : proxy.Exact vformat) {row : Nat} :
    proxy.isVisible row = true ↔ row ∈ proxy.shownRows := by
  rw [mem_shownRows, isVisible, Option.isSome_iff_exists]
  exact exists_congr fun proxyRow => exact_.proxyRowFor_iff

/-- The proxy shows rows that the table has. -/
theorem shownRows_lt {row : Nat} (shown : row ∈ proxy.shownRows) :
    row < proxy.source.table.rowCount := by
  obtain ⟨proxyRow, mapped⟩ := mem_shownRows.mp shown
  obtain ⟨midRow, _, held⟩ := Option.bind_eq_some_iff.mp mapped
  have listed : row ∈ proxy.source.logRows := List.mem_of_getElem? held
  exact List.mem_range.mp (proxy.source.chained.mem_iff.mp listed)

end Shown

section Searches

open List

variable {tsFor : Nat → Option Int} {targetMicros : Int} {rows : List Nat}

/-- A shown row whose timestamp is the least one at or after the target. -/
def IsEarliest (tsFor : Nat → Option Int) (targetMicros : Int) (rows : List Nat)
    (row : Nat) : Prop :=
  row ∈ rows ∧ ∃ ts, tsFor row = some ts ∧ targetMicros ≤ ts ∧
    ∀ other ∈ rows, ∀ later ∈ tsFor other, targetMicros ≤ later → ts ≤ later

/-- The walk for the smallest row takes the rows that are far enough and late enough. -/
theorem foldl_smallestStep (lo : Nat) (best : Option Nat) (rows : List Nat) :
    rows.foldl (smallestStep tsFor targetMicros lo) best =
      (rows.filter fun row => decide (lo ≤ row) && (tsFor row).any (targetMicros ≤ ·)).foldl
        (argAux fun row least => row < least) best := by
  induction rows generalizing best with
  | nil => rfl
  | cons row rest ih =>
    rw [foldl_cons, ih, filter_cons]
    unfold smallestStep
    split
    · rename_i near
      simp [Nat.not_le.mpr near]
    · rename_i far
      have reached : lo ≤ row := by omega
      cases stamp : tsFor row with
      | none => simp
      | some ts =>
        by_cases early : ts < targetMicros
        · simp [early, Int.not_le.mpr early]
        · have late : targetMicros ≤ ts := by omega
          -- The row is a candidate, and is kept if it is smaller than the best one.
          cases best with
          | none => simp [reached, late, early, argAux]
          | some held => simp [reached, late, early, argAux]

/-- A row that the walk for the smallest timestamp may take: late enough, but not at the
end of time. -/
def takesRow (tsFor : Nat → Option Int) (targetMicros : Int) (row : Nat) : Bool :=
  (tsFor row).any fun ts => decide (targetMicros ≤ ts) && decide (ts < endOfTime)

/-- The best row so far and its timestamp, from the best row alone. -/
def withStamp (tsFor : Nat → Option Int) (best : Option Nat) : Option Nat × Int :=
  (best, (best.bind tsFor).getD endOfTime)

/-- The earlier one of two rows, the first one if they tie. -/
abbrev earlier (tsFor : Nat → Option Int) : Option Nat → Nat → Option Nat :=
  argAux fun row least => (tsFor row).getD 0 < (tsFor least).getD 0

/-- One step of the walk keeps the earlier row, if the next one may be taken. -/
theorem earliestStep_withStamp {best : Option Nat}
    (before : ∀ row ∈ best, takesRow tsFor targetMicros row = true) (row : Nat) :
    earliestStep tsFor targetMicros (withStamp tsFor best) row =
      withStamp tsFor (if takesRow tsFor targetMicros row then earlier tsFor best row
        else best) := by
  unfold earliestStep takesRow
  cases stamp : tsFor row with
  | none => rfl
  | some ts =>
    by_cases early : ts < targetMicros
    · simp [early, Int.not_le.mpr early]
    · have late : targetMicros ≤ ts := by omega
      cases best with
      | none =>
        by_cases last : ts < endOfTime
        · simp [withStamp, earlier, argAux, stamp, early, late, last]
        · simp [withStamp, early, last]
      | some held =>
        -- The best row so far is one that the walk may take, so its timestamp is in range.
        have taken := before held rfl
        unfold takesRow at taken
        cases shown : tsFor held with
        | none => simp [shown] at taken
        | some bestTs =>
          obtain ⟨_, bounded⟩ : targetMicros ≤ bestTs ∧ bestTs < endOfTime := by
            simpa [shown] using taken
          by_cases less : ts < bestTs
          · have last : ts < endOfTime := by omega
            simp [withStamp, earlier, argAux, stamp, shown, early, late, last, less]
          · by_cases last : ts < endOfTime
            · simp [withStamp, earlier, argAux, stamp, shown, early, late, last, less]
            · simp [withStamp, shown, early, last, less]

/-- The walk for the smallest timestamp keeps the earliest row that it may take. -/
theorem foldl_earliestStep {best : Option Nat} (rows : List Nat)
    (before : ∀ row ∈ best, takesRow tsFor targetMicros row = true) :
    rows.foldl (earliestStep tsFor targetMicros) (withStamp tsFor best) =
      withStamp tsFor ((rows.filter (takesRow tsFor targetMicros)).foldl (earlier tsFor) best) := by
  induction rows generalizing best with
  | nil => rfl
  | cons row rest ih =>
    rw [foldl_cons, earliestStep_withStamp before, filter_cons]
    split
    · rename_i takes
      apply ih
      intro kept listed
      -- The row kept is the next one or the best one so far.
      cases best with
      | none =>
        simpa [earlier, argAux] using (show row =
          kept from by simpa [earlier, argAux] using listed) ▸ takes
      | some held =>
        simp only [earlier, argAux] at listed
        split at listed
        · exact Option.some.inj listed ▸ takes
        · exact before kept listed
    · exact ih before

/-- A row whose timestamp is at or after the target. -/
theorem any_reaches {row : Nat} :
    (tsFor row).any (targetMicros ≤ ·) = true ↔ ∃ ts, tsFor row = some ts ∧ targetMicros ≤ ts := by
  rw [Option.any_eq_true]
  simp

variable {proxy : LogFilterModel} {vformat : Bytes → LogValue → Bytes} {row : Nat}

/-- The walk over unordered timestamps finds a shown row with the least timestamp in range. -/
theorem findInUnordered_earliest (found : proxy.findInUnordered tsFor targetMicros = some row) :
    IsEarliest tsFor targetMicros proxy.shownRows row := by
  unfold findInUnordered at found
  change (proxy.shownRows.foldl (earliestStep tsFor targetMicros) (withStamp tsFor none)).1 =
    some row at found
  -- The fold is the first of the smallest instants among the rows that it takes.
  rw [foldl_earliestStep _ (by simp)] at found
  change (proxy.shownRows.filter (takesRow tsFor targetMicros)).argmin (fun row =>
    (tsFor row).getD 0) = some row at found
  obtain ⟨shown, takes⟩ := mem_filter.mp (argmin_mem found)
  unfold takesRow at takes
  cases stamp : tsFor row with
  | none => simp [stamp] at takes
  | some ts =>
    obtain ⟨late, last⟩ : targetMicros ≤ ts ∧ ts < endOfTime := by simpa [stamp] using takes
    refine ⟨shown, ts, stamp, late, ?_⟩
    -- Any later row either has an instant that the fold takes, or the one at the end of time.
    intro other listed later other_ reaches
    by_cases bounded : later < endOfTime
    · have candidate : other ∈ proxy.shownRows.filter (takesRow tsFor targetMicros) := by
        apply mem_filter.mpr
        rw [Option.mem_def] at other_
        simp [listed, takesRow, other_, reaches, bounded]
      have least := le_of_mem_argmin candidate found
      rw [Option.mem_def] at other_
      simpa [stamp, other_] using least
    · omega

/-- It finds none only if the timestamps at or after the target are all at the end of time. -/
theorem findInUnordered_none (none_ : proxy.findInUnordered tsFor targetMicros = none) {ts : Int}
    (shown : row ∈ proxy.shownRows) (stamp : tsFor row = some ts) (reaches : targetMicros ≤ ts) :
    endOfTime ≤ ts := by
  unfold findInUnordered at none_
  change (proxy.shownRows.foldl (earliestStep tsFor targetMicros) (withStamp tsFor none)).1 =
    none at none_
  rw [foldl_earliestStep _ (by simp)] at none_
  -- Nothing found means that no shown row is a candidate.
  have empty : proxy.shownRows.filter (takesRow tsFor targetMicros) = [] :=
    (foldl_argAux_eq_none _).mp none_ |>.1
  -- A stamp below the end of time would make this row one.
  by_contra bounded
  have candidate : row ∈ proxy.shownRows.filter (takesRow tsFor targetMicros) := by
    apply mem_filter.mpr
    simp [shown, takesRow, stamp, reaches, Int.not_le.mp bounded]
  rw [empty] at candidate
  cases candidate

/-- The walk in display order finds the first shown row at or after the target. -/
theorem findInDisplayOrder_iff :
    proxy.findInDisplayOrder tsFor targetMicros = some row ↔
      (∃ ts, tsFor row = some ts ∧ targetMicros ≤ ts) ∧ ∃ before behind,
        proxy.shownRows = before ++ row :: behind ∧
        ∀ other ∈ before, ∀ ts ∈ tsFor other, ts < targetMicros := by
  unfold findInDisplayOrder
  rw [find?_eq_some_iff_append, any_reaches]
  -- The row reaches the target, and no row that is shown before it does.
  apply and_congr_right
  intro _
  apply exists_congr
  intro before
  apply exists_congr
  intro behind
  apply and_congr_right
  intro _
  apply forall₂_congr
  intro other _
  cases tsFor other with
  | none => simp
  | some ts => simp

/-- A row at or after the target is not before the place that splits the timestamps. -/
theorem reached_of_splits {lo : Nat} (splits : GappedSearch.Splits tsFor targetMicros lo) {ts : Int}
    (stamp : tsFor row = some ts) (late : targetMicros ≤ ts) : lo ≤ row := by
  by_contra before
  have early := splits.below row (by omega) ts stamp
  omega

/-- Where the timestamps ascend, the smallest row at or after the target has the least timestamp. -/
theorem least_of_ascends (ascends : GappedSearch.Ascends tsFor) {other : Nat} {ts later : Int}
    (stamp : tsFor row = some ts)
    (another : tsFor other = some later) (least : row ≤ other) : ts ≤ later := by
  rcases Nat.eq_or_lt_of_le least with same | behind
  · subst same
    exact le_of_eq (Option.some.inj (stamp.symm.trans another))
  · exact ascends row other behind ts stamp later another

/-- The rows that the walk behind the split takes are those at or after the target. -/
theorem mem_behind_iff {lo : Nat} (splits : GappedSearch.Splits tsFor targetMicros lo) :
    (row ∈ rows.filter fun row => decide (lo ≤ row) && (tsFor row).any (targetMicros ≤ ·)) ↔
      row ∈ rows ∧ ∃ ts, tsFor row = some ts ∧ targetMicros ≤ ts := by
  rw [mem_filter, Bool.and_eq_true_iff, decide_eq_true_iff, any_reaches]
  -- A row at or after the target lies behind the bisection point.
  apply and_congr_right
  intro _
  apply and_iff_right_of_imp
  intro given
  obtain ⟨ts, stamp, late⟩ := given
  exact reached_of_splits splits stamp late

/-- Behind the split, the walk over the shown rows finds the earliest one. -/
theorem foldl_smallestStep_spec {lo : Nat} (splits : GappedSearch.Splits tsFor targetMicros lo)
    (ascends : GappedSearch.Ascends tsFor) :
    (∀ row, rows.foldl (smallestStep tsFor targetMicros lo) none = some row →
      IsEarliest tsFor targetMicros rows row) ∧
      (rows.foldl (smallestStep tsFor targetMicros lo) none = none → ∀ row ∈ rows, ∀ ts ∈ tsFor row,
        ts < targetMicros) := by
  rw [foldl_smallestStep]
  change (∀ row, argmin (fun row : Nat => row) (rows.filter _) = some row → _) ∧
    (argmin (fun row : Nat => row) (rows.filter _) = none → _)
  constructor
  · -- A row behind the split reaches the target, and the smallest such row is the earliest.
    intro row found
    obtain ⟨shown, ts, stamp, reaches⟩ := (mem_behind_iff splits).mp (argmin_mem found)
    refine ⟨shown, ts, stamp, reaches, ?_⟩
    intro other listed later another inRange
    have among := (mem_behind_iff splits).mpr ⟨listed, later, another, inRange⟩
    exact least_of_ascends ascends stamp another (le_of_mem_argmin among found)
  · -- A row that reached the target would be among those behind the split.
    intro none_ row listed ts stamp
    by_contra late
    have among := (mem_behind_iff splits).mpr ⟨listed, ts, stamp, not_lt.mp late⟩
    rw [argmin_eq_none.mp none_] at among
    cases among

/-- Over timestamps that ascend, the search finds a shown row with the least timestamp in range, or
there is none. -/
theorem findInAscending_spec (exact_ : proxy.Exact vformat) (ascends : GappedSearch.Ascends tsFor)
    (outside : ∀ row, proxy.source.table.rowCount ≤ row → tsFor row = none) :
    (∀ row, proxy.findInAscending tsFor targetMicros = some row →
      IsEarliest tsFor targetMicros proxy.shownRows row) ∧
      (proxy.findInAscending tsFor targetMicros = none →
        ∀ row ∈ proxy.shownRows, ∀ ts ∈ tsFor row, ts < targetMicros) := by
  have splits : GappedSearch.Splits tsFor targetMicros
      (GappedSearch.lowerBound tsFor targetMicros proxy.source.table.rowCount 0
        proxy.source.table.rowCount) := by
    apply GappedSearch.lowerBound_splits ascends
    · omega
    · exact Nat.zero_le _
    · intro row negative
      omega
    · intro row behind ts stamp
      rw [outside row behind] at stamp
      cases stamp
  simp only [findInAscending]
  generalize GappedSearch.lowerBound tsFor targetMicros proxy.source.table.rowCount 0
    proxy.source.table.rowCount = lo
    at splits ⊢
  split
  · rename_i beyond
    constructor
    · intro row found
      cases found
    · intro _ row shown ts stamp
      by_contra late
      have inside := shownRows_lt shown
      have far := reached_of_splits splits stamp (not_lt.mp late)
      omega
  · split
    · -- The row that the search ends at is shown, and has a timestamp.
      rename_i happy
      obtain ⟨late, visible⟩ := Bool.and_eq_true_iff.mp happy
      obtain ⟨ts, stamp, reaches⟩ := any_reaches.mp late
      constructor
      · intro row found
        obtain rfl := Option.some.inj found
        refine ⟨exact_.isVisible_iff.mp visible, ts, stamp, reaches, ?_⟩
        intro other _ later another inRange
        exact least_of_ascends ascends stamp another (reached_of_splits splits another inRange)
      · intro none_
        cases none_
    · exact foldl_smallestStep_spec splits ascends

end Searches

end LogFilterModel

namespace LogModel

section Times

/-- Timestamp of a row in the first time column. -/
def firstTimeAt (model : LogModel) (row : Nat) : Option Int :=
  model.table.configuration.firstTimeColumnIndex.bind fun timeCol =>
    timestampAt model.table timeCol row

/-- The timestamps that the rows show in the first time column. -/
def shownTimes (model : LogModel) : List Int :=
  (List.range model.table.rowCount).filterMap model.firstTimeAt

/-- The timestamps of the rows that an operation adds, as the model checks them: before it
moves any column. -/
def freshTimes (parse : TimestampParser) (model : LogModel) : ModelOp → List Int
  | .appendBatch _ batch =>
    let small := model.collapseBatch batch
    let evicted := model.evictFor small
    match evicted.takeBatch parse small with
    | none => []
    | some taken =>
      (List.range' evicted.table.rowCount (taken.table.rowCount - evicted.table.rowCount)).filterMap
        taken.firstTimeAt
  | _ => []

/-- An operation shows no timestamps but those of the rows before it and then those of its
own rows. -/
def KeepsTimes (parse : TimestampParser) (model : LogModel) (op : ModelOp) : Prop :=
  ∀ next, model.step parse op = some next →
    next.shownTimes.Sublist (model.shownTimes ++ model.freshTimes parse op)

/-- The condition on an operation can be computed. -/
instance (parse : TimestampParser) (model : LogModel) (op : ModelOp) :
    Decidable (model.KeepsTimes parse op) :=
  decidable_of_iff
    ((model.step parse op).all fun next =>
      decide (next.shownTimes.Sublist (model.shownTimes ++ model.freshTimes parse op)))
    (by simp [KeepsTimes, Option.all_eq_true])

/-- Timestamps ascend, up to the last one that was ever there. -/
structure AscendUpTo (times : List Int) (last : Option Int) : Prop where
  ascending : times.Pairwise (· ≤ ·)
  bounded : ∀ ts ∈ times, ∃ bound ∈ last, ts ≤ bound

/-- While the model says so, the timestamps that it shows ascend, up to the last one it
remembers. -/
def TimesTracked (model : LogModel) : Prop :=
  model.timestampsMonotonic = true → AscendUpTo model.shownTimes model.lastAppendedTimestampMicros

end Times

section Checks

/-- Some of the timestamps ascend as well. -/
theorem AscendUpTo.sublist {times some_ : List Int} {last : Option Int}
    (ascend : AscendUpTo times last)
    (part : some_.Sublist times) : AscendUpTo some_ last :=
  ⟨ascend.ascending.sublist part, fun ts listed => ascend.bounded ts (part.subset listed)⟩

/-- Timestamps that ascend behind the last one continue the others. -/
theorem AscendUpTo.append {times fresh : List Int} {last : Option Int}
    (ascend : AscendUpTo times last)
    (behind : (last.toList ++ fresh).Pairwise (· ≤ ·)) :
    AscendUpTo (times ++ fresh) (last.toList ++ fresh).getLast? := by
  have between : ∀ bound ∈ last, ∀ ts ∈ fresh, bound ≤ ts := by
    intro bound held ts listed
    exact (List.pairwise_append.mp behind).2.2 bound (Option.mem_toList.mpr held) ts listed
  have fits : ∀ ts ∈ last.toList ++ fresh, ∃ bound ∈ (last.toList ++ fresh).getLast?,
      ts ≤ bound := by
    intro ts listed
    have present : last.toList ++ fresh ≠ [] := List.ne_nil_of_mem listed
    refine ⟨_, List.getLast?_eq_some_getLast present, ?_⟩
    -- The timestamp is the last one, or in front of it.
    rw [← List.dropLast_append_getLast present, List.mem_append, List.mem_singleton] at listed
    rcases listed with front | same
    · have split_ := List.dropLast_append_getLast present ▸ behind
      exact (List.pairwise_append.mp split_).2.2 ts front _ (List.mem_singleton.mpr rfl)
    · exact le_of_eq same
  constructor
  · rw [List.pairwise_append]
    refine ⟨ascend.ascending, (List.pairwise_append.mp behind).2.1, fun ts listed later after => ?_⟩
    obtain ⟨bound, held, below⟩ := ascend.bounded ts listed
    exact below.trans (between bound held later after)
  · intro ts listed
    rcases List.mem_append.mp listed with old | new
    · obtain ⟨bound, held, below⟩ := ascend.bounded ts old
      obtain ⟨largest, last_, above⟩ :=
        fits bound (List.mem_append_left _ (Option.mem_toList.mpr held))
      exact ⟨largest, last_, below.trans above⟩
    · exact fits ts (List.mem_append_right _ new)

/-- Timestamps without an inversion ascend behind the last one, and the last one of all is
remembered. -/
theorem checkTimestamps_ascends {lastAppended lastInBatch : Option Int} {rows : List (Option Int)}
    (monotonic : (checkTimestamps lastAppended lastInBatch rows).1 = true) :
    ((lastInBatch.or lastAppended).toList ++ rows.reduceOption).Pairwise (· ≤ ·) ∧
      (checkTimestamps lastAppended lastInBatch rows).2 =
        ((lastInBatch.or lastAppended).toList ++ rows.reduceOption).getLast? := by
  induction rows generalizing lastInBatch with
  | nil =>
    rw [checkTimestamps, List.reduceOption_nil, List.append_nil]
    cases lastInBatch.or lastAppended with
    | none => exact ⟨List.Pairwise.nil, rfl⟩
    | some last => exact ⟨List.pairwise_singleton _ last, rfl⟩
  | cons row rest ih =>
    cases row with
    | none =>
      rw [checkTimestamps] at monotonic ⊢
      exact ih monotonic
    | some ts =>
      -- Whatever the last timestamp came from, this one is not smaller.
      have step : (∀ last ∈ lastInBatch.or lastAppended, last ≤ ts) ∧
          checkTimestamps lastAppended lastInBatch (some ts :: rest) = checkTimestamps lastAppended
            (some ts) rest := by
        cases lastInBatch with
        | none =>
          rw [checkTimestamps] at monotonic ⊢
          split at monotonic
          · cases monotonic
          · rename_i ordered
            rw [if_neg ordered]
            refine ⟨fun last listed => ?_, rfl⟩
            by_contra inverted
            exact ordered ⟨last, listed, not_le.mp inverted⟩
        | some runningMax =>
          rw [checkTimestamps] at monotonic ⊢
          split at monotonic
          · cases monotonic
          · rename_i ordered
            rw [if_neg ordered]
            refine ⟨fun last listed => ?_, rfl⟩
            obtain rfl : runningMax = last := by simpa using listed
            exact not_lt.mp ordered
      rw [step.2] at monotonic ⊢
      obtain ⟨ascends, remembered⟩ := ih monotonic
      simp only [Option.some_or, Option.toList_some, List.singleton_append] at ascends remembered
      rw [List.reduceOption_cons_of_some, remembered]
      cases held : lastInBatch.or lastAppended with
      | none => exact ⟨ascends, rfl⟩
      | some last =>
        have before := step.1 last held
        refine ⟨List.pairwise_cons.mpr ⟨fun later listed => ?_, ascends⟩,
          (List.getLast?_cons_cons ..).symm⟩
        rcases List.mem_cons.mp listed with same | behind
        · exact same ▸ before
        · exact before.trans ((List.pairwise_cons.mp ascends).1 later behind)

end Checks

section Steps

variable {model next : LogModel} {parse : TimestampParser}

/-- What the model remembers about the order of its timestamps. -/
def tracker (model : LogModel) : Bool × Option Int :=
  (model.timestampsMonotonic, model.lastAppendedTimestampMicros)

/-- A signal leaves the tracker. -/
@[simp] theorem tracker_signal (model : LogModel) (asks : Bool) :
    (model.signal asks).tracker = model.tracker := by
  unfold signal
  split <;> rfl

/-- Moving a column leaves the tracker. -/
@[simp] theorem tracker_moveColumn (model : LogModel) (srcIndex destIndex : Nat) (asks : Bool) :
    (model.moveColumn srcIndex destIndex asks).tracker = model.tracker := by
  unfold moveColumn
  split
  · rfl
  · rw [tracker_signal]
    rfl

/-- Time columns that move to the front leave the tracker. -/
@[simp] theorem tracker_bubbleTimeColumns (asks : SignalReads) (signals : Nat) (model : LogModel)
    (sources : List Nat) :
    (bubbleTimeColumns asks signals model sources).tracker = model.tracker := by
  -- Moving columns does not touch what the model says of its times.
  induction sources generalizing signals model with
  | nil => rfl
  | cons srcIndex rest ih =>
    unfold bubbleTimeColumns
    split
    · exact ih signals model
    · rw [ih, tracker_signal]
      rfl

/-- So do level columns that move to their slot. -/
@[simp] theorem tracker_bubbleLevelColumns (asks : SignalReads) (signals : Nat) (model : LogModel)
    (pending : List KeyId) :
    (bubbleLevelColumns asks signals model pending).tracker = model.tracker := by
  -- Moving columns does not touch what the model says of its times.
  induction pending generalizing signals model with
  | nil => rfl
  | cons key rest ih =>
    unfold bubbleLevelColumns
    split
    · exact ih signals model
    · rw [ih, tracker_moveColumn]

/-- And so does draining them. -/
@[simp] theorem tracker_drainLevelBubbles (asks : SignalReads) (signals : Nat) (model : LogModel) :
    (model.drainLevelBubbles asks signals).tracker = model.tracker := by
  unfold drainLevelBubbles
  rw [tracker_bubbleLevelColumns]
  rfl

/-- The columns are arranged behind the check of the timestamps. -/
theorem tracker_arrangeColumns (asks : SignalReads) (oldColumnCount newColumnCount : Nat)
    (model : LogModel) :
    (model.arrangeColumns asks oldColumnCount newColumnCount).tracker = model.tracker := by
  simp [arrangeColumns]

/-- Whether a model is tracked is a matter of its tracker and of the timestamps it shows. -/
theorem TimesTracked.of_sublist (tracked : model.TimesTracked)
    (tracker_ : next.tracker = model.tracker)
    (shown : next.shownTimes.Sublist model.shownTimes) : next.TimesTracked := by
  obtain ⟨flag, last⟩ := Prod.mk.inj tracker_
  intro monotonic
  rw [last]
  exact (tracked (flag ▸ monotonic)).sublist shown

/-- A model without rows shows no timestamps. -/
theorem shownTimes_of_empty (empty : model.table.rowCount = 0) : model.shownTimes = [] := by
  rw [shownTimes, empty]
  rfl

/-- A model without rows that starts over is tracked. -/
theorem timesTracked_of_empty (empty : model.table.rowCount = 0) : model.TimesTracked := by
  intro _
  rw [shownTimes_of_empty empty]
  exact ⟨List.Pairwise.nil, fun ts listed => by cases listed⟩

/-- The check of a batch orders its timestamps behind all that were shown. -/
theorem updateTimestampMonotonicity_tracked {firstNewRow : Nat} {times : List Int}
    (before : model.timestampsMonotonic = true → AscendUpTo times model.lastAppendedTimestampMicros)
    (monotonic : (model.updateTimestampMonotonicity firstNewRow).timestampsMonotonic = true) :
    AscendUpTo
      (times ++ (List.range' firstNewRow (model.table.rowCount - firstNewRow)).filterMap
        model.firstTimeAt)
      (model.updateTimestampMonotonicity firstNewRow).lastAppendedTimestampMicros := by
  unfold updateTimestampMonotonicity at monotonic ⊢
  split at monotonic
  · rename_i skipped
    rw [if_pos skipped]
    have none_ : model.table.rowCount - firstNewRow = 0 := by
      rcases skipped with inverted | empty
      · rw [inverted] at monotonic
        cases monotonic
      · omega
    rw [none_]
    simpa using before monotonic
  · rename_i due
    rw [if_neg due]
    cases column : model.table.configuration.firstTimeColumnIndex with
    | none =>
      -- Without a time column no row has a timestamp.
      rw [column] at monotonic
      have stampless : (List.range' firstNewRow (model.table.rowCount - firstNewRow)).filterMap
          model.firstTimeAt = [] := by
        simp [firstTimeAt, column]
      rw [stampless, List.append_nil]
      exact before monotonic
    | some timeCol =>
      rw [column] at monotonic
      dsimp only at monotonic ⊢
      have same : model.firstTimeAt = timestampAt model.table timeCol := by
        funext row
        rw [firstTimeAt, column, Option.bind_some]
      obtain ⟨ascends, remembered⟩ := checkTimestamps_ascends monotonic
      rw [same, remembered]
      simp only [List.reduceOption, List.filterMap_map, Function.id_comp] at ascends ⊢
      have held : model.timestampsMonotonic = true := by
        by_contra inverted
        exact due (.inl (Bool.eq_false_iff.mpr inverted))
      exact (before held).append ascends

/-- An operation other than a batch starts over without rows, or leaves the tracker and adds no
timestamps. -/
theorem tracker_step {op : ModelOp} (done : model.step parse op = some next) :
    (∃ asks batch, op = .appendBatch asks batch) ∨ next.table.rowCount = 0 ∨
      next.tracker = model.tracker ∧ model.freshTimes parse op = [] := by
  cases op with
  | beginStreaming source =>
    obtain rfl := Option.some.inj done
    have frame := LogTable.rowFrame_beginStreaming model.table source
    exact .inr (.inl frame.rows.length_eq.symm)
  | appendStreaming source =>
    obtain rfl := Option.some.inj done
    exact .inr (.inr ⟨rfl, rfl⟩)
  | parserLine source rawLine ownedBytes =>
    simp only [step] at done
    obtain ⟨table, _, rfl⟩ := Option.map_eq_some_iff.mp done
    exact .inr (.inr ⟨rfl, rfl⟩)
  | parserOwned source text =>
    simp only [step] at done
    obtain ⟨table, _, rfl⟩ := Option.map_eq_some_iff.mp done
    exact .inr (.inr ⟨rfl, rfl⟩)
  | appendBatch asks batch => exact .inl ⟨asks, batch, rfl⟩
  | endStreaming asks cancelled =>
    refine .inr (.inr ⟨?_, rfl⟩)
    simp only [step, endStreaming] at done
    split at done
    · obtain rfl := Option.some.inj done
      rfl
    · obtain ⟨table, _, rfl⟩ := Option.map_eq_some_iff.mp done
      rw [tracker_drainLevelBubbles, tracker_signal]
      rfl
  | reset =>
    obtain rfl := Option.some.inj done
    refine .inr (.inl ?_)
    -- The table starts over with the configured columns, and with no rows.
    have rows := fun begun => (LogTable.rowFrame_refreshSnapshotEnumKeys begun).rows.length_eq
    exact (rows _).symm
  | moveColumn srcIndex destIndex asks =>
    obtain rfl := Option.some.inj done
    exact .inr (.inr ⟨tracker_moveColumn model srcIndex destIndex asks, rfl⟩)
  | applyColumnTypeEdit columnIndex type autoDetect =>
    refine .inr (.inr ⟨?_, rfl⟩)
    simp only [step, applyColumnTypeEdit] at done
    split at done
    · obtain rfl := Option.some.inj done
      rfl
    · split at done
      · obtain rfl := Option.some.inj done
        rfl
      · obtain ⟨table, _, rfl⟩ := Option.map_eq_some_iff.mp done
        rfl
  | notifyColumnEdited columnIndex =>
    obtain rfl := Option.some.inj done
    refine .inr (.inr ⟨?_, rfl⟩)
    unfold notifyColumnEdited
    split <;> rfl
  | notifyConfigurationReplaced configuration =>
    obtain rfl := Option.some.inj done
    exact .inr (.inr ⟨rfl, rfl⟩)
  | setRetentionCap cap paused =>
    obtain rfl := Option.some.inj done
    refine .inr (.inr ⟨?_, rfl⟩)
    simp only [setRetentionCap]
    split
    · rfl
    · split <;> rfl
  | firstLevelColumnIndex =>
    obtain rfl := Option.some.inj done
    exact .inr (.inr ⟨rfl, rfl⟩)

/-- A batch checks the timestamps of its rows against those that were shown. -/
theorem takeBatch_tracked {batch : StreamedBatch} {taken : LogModel} {times : List Int}
    (begun : model.takeBatch parse batch = some taken)
    (before : model.timestampsMonotonic = true → AscendUpTo times model.lastAppendedTimestampMicros)
    (monotonic : taken.timestampsMonotonic = true) :
    AscendUpTo
      (times ++ (List.range' model.table.rowCount
        (taken.table.rowCount - model.table.rowCount)).filterMap taken.firstTimeAt)
      taken.lastAppendedTimestampMicros := by
  obtain ⟨table, _, rfl⟩ := Option.map_eq_some_iff.mp begun
  have checked := @updateTimestampMonotonicity_tracked { model with table } model.table.rowCount
    times before monotonic
  -- The check of the times leaves the table as it is.
  have same : (({ model with table } : LogModel).updateTimestampMonotonicity
      model.table.rowCount).table = table := by
    simp only [updateTimestampMonotonicity]
    split
    · rfl
    · split <;> rfl
  unfold firstTimeAt at checked ⊢
  dsimp only at checked ⊢
  rw [same]
  exact checked

/-- One operation keeps the model tracked. -/
theorem step_tracked {op : ModelOp} (tracked : model.TimesTracked)
    (keeps : model.KeepsTimes parse op)
    (done : model.step parse op = some next) : next.TimesTracked := by
  have shown := keeps next done
  rcases tracker_step done with ⟨asks, batch, rfl⟩ | empty | ⟨same, none_⟩
  · -- The check of the batch covers the rows that were there and the rows that it adds.
    obtain ⟨taken, begun, rfl⟩ := Option.map_eq_some_iff.mp done
    obtain ⟨flag, last⟩ := Prod.mk.inj (tracker_arrangeColumns asks model.table.columnCount
      (model.table.previewAppend (model.collapseBatch batch)).newColumnCount taken)
    intro monotonic
    rw [flag] at monotonic
    rw [last]
    simp only [freshTimes, begun] at shown
    exact (takeBatch_tracked begun tracked monotonic).sublist shown
  · exact timesTracked_of_empty empty
  · rw [none_, List.append_nil] at shown
    exact tracked.of_sublist same shown

end Steps

section Runs

variable {model : LogModel} {parse : TimestampParser}

/-- In a run whose operations show no timestamps but known ones, the model stays tracked. -/
theorem run_tracked {configuration : LogConfiguration} {ops : List ModelOp}
    (keeps : CleanRun (step parse) (KeepsTimes parse) (.ofConfiguration configuration) ops)
    (done : (ofConfiguration configuration).run parse ops = some model) : model.TimesTracked := by
  have rows := (LogTable.rowFrame_refreshSnapshotEnumKeys
    (.ofConfiguration configuration)).rows.length_eq
  have start : (ofConfiguration configuration).TimesTracked := timesTracked_of_empty rows.symm
  refine keeps.invariant TimesTracked ?_ start done
  intro before op next tracked keeps done
  exact step_tracked tracked keeps done

/-- A row that the table does not have shows no timestamp. -/
theorem timestampAt_outside {table : LogTable} {row : Nat} (outside : table.rowCount ≤ row)
    (timeCol : Nat) :
    timestampAt table timeCol row = none := by
  have absent : table.lines[row]? = none := List.getElem?_eq_none outside
  unfold timestampAt LogTable.getValue
  rw [absent]
  cases table.columnKeyIds[timeCol]? <;> rfl

/-- Timestamps that the model shows in ascending order ascend from row to row. -/
theorem TimesTracked.ascends (tracked : model.TimesTracked)
    (monotonic : model.timestampsMonotonic = true) {timeCol : Nat}
    (first : model.table.configuration.firstTimeColumnIndex = some timeCol) :
    GappedSearch.Ascends (timestampAt model.table timeCol) := by
  -- The time column that is looked at is the first one.
  have same : model.firstTimeAt = timestampAt model.table timeCol := by
    funext row
    rw [firstTimeAt, first, Option.bind_some]
  have ascending := (tracked monotonic).ascending
  rw [shownTimes, same, List.pairwise_filterMap, List.pairwise_iff_getElem] at ascending
  intro earlier later before left shown right also
  have inside : later < model.table.rowCount := by
    by_contra outside
    rw [timestampAt_outside (not_lt.mp outside)] at also
    cases also
  have ordered := ascending earlier later (by simp; omega) (by simpa using inside) before
  rw [List.getElem_range, List.getElem_range] at ordered
  exact ordered left shown right also

end Runs

end LogModel

namespace LogFilterModel

/-- What the search answers: the earliest shown row at or after the target, the first one in display
order under a sort, and none only where there is none, or none in range of a walk over unordered
timestamps. -/
structure AnswersGoTo (proxy : LogFilterModel) (timestampsMonotonic : Bool)
    (tsFor : Nat → Option Int) (targetMicros : Int)
    (found : Option Nat) : Prop where
  earliest : proxy.sortColumn = none →
    ∀ row ∈ found, IsEarliest tsFor targetMicros proxy.shownRows row
  first : proxy.sortColumn ≠ none → ∀ row ∈ found, (∃ ts, tsFor row = some ts ∧ targetMicros ≤ ts) ∧
    ∃ before behind, proxy.shownRows = before ++ row :: behind ∧ ∀ other ∈ before,
      ∀ ts ∈ tsFor other, ts < targetMicros
  complete : found = none → ∀ row ∈ proxy.shownRows, ∀ ts ∈ tsFor row, targetMicros ≤ ts →
    proxy.sortColumn = none ∧ timestampsMonotonic = false ∧ endOfTime ≤ ts

variable {proxy : LogFilterModel} {vformat : Bytes → LogValue → Bytes} {parse : TimestampParser}
    {model : LogModel}

/-- The search answers from timestamps that ascend where they are said to. -/
theorem findFirstRow_answers (exact_ : proxy.Exact vformat) {timestampsMonotonic : Bool}
    {timeCol : Nat}
    (ascends : timestampsMonotonic = true →
    GappedSearch.Ascends (LogModel.timestampAt proxy.source.table timeCol))
    (targetMicros : Int) :
    proxy.AnswersGoTo timestampsMonotonic
      (LogModel.timestampAt proxy.source.table timeCol) targetMicros
      (proxy.findFirstRowAtOrAfterTimestamp timestampsMonotonic (some timeCol) targetMicros) := by
  unfold findFirstRowAtOrAfterTimestamp
  dsimp only
  split
  · -- No rows are shown, so there is none to find.
    rename_i empty
    refine ⟨fun _ row found => (by cases found), fun _ row found => (by cases found),
      fun _ row shown => ?_⟩
    have inside := shownRows_lt shown
    omega
  · cases sorted : proxy.sortColumn with
    | none =>
      -- The table ascends, so the binary search is asked.
      cases timestampsMonotonic with
      | true =>
        obtain ⟨finds, misses⟩ :=
          @findInAscending_spec _ targetMicros proxy vformat exact_ (ascends rfl)
          fun row outside => LogModel.timestampAt_outside outside timeCol
        refine ⟨fun _ => finds, fun sort => absurd sorted sort,
          fun none_ row shown ts stamp reaches => ?_⟩
        have early := misses none_ row shown ts stamp
        omega
      -- A table that does not ascend is searched row by row.
      | false =>
        refine ⟨fun _ row found => findInUnordered_earliest found, fun sort =>
          absurd sorted sort, ?_⟩
        intro none_ row shown ts stamp reaches
        exact ⟨sorted, rfl, findInUnordered_none none_ shown stamp reaches⟩
    -- A sorted view is searched in the order in which it shows its rows.
    | some column =>
      refine ⟨fun none_ => (by rw [sorted] at none_; cases none_), fun _ row found =>
        findInDisplayOrder_iff.mp found, ?_⟩
      intro none_ row shown ts stamp reaches
      have passed := List.find?_eq_none.mp none_ row shown
      exact absurd (any_reaches.mpr ⟨ts, stamp, reaches⟩) passed

/-- After a run that tracks its timestamps, whatever the filter, the order of the rows and the gaps
in the timestamps are, the search on the first time column answers exactly. -/
theorem goToTimestamp_answers {configuration : LogConfiguration} {ops : List ModelOp}
    (keeps : Loglib.CleanRun (LogModel.step parse) (LogModel.KeepsTimes parse)
    (LogModel.ofConfiguration configuration) ops)
    (done : (LogModel.ofConfiguration configuration).run parse ops = some model)
    (table : proxy.source.table = model.table)
    (exact_ : proxy.Exact vformat) (targetMicros : Int) :
    proxy.AnswersGoTo model.timestampsMonotonic model.firstTimeAt targetMicros
      (proxy.findFirstRowAtOrAfterTimestamp model.timestampsMonotonic
        model.table.configuration.firstTimeColumnIndex
        targetMicros) := by
  have tracked := LogModel.run_tracked keeps done
  cases first : model.table.configuration.firstTimeColumnIndex with
  | none =>
    -- Without a time column no row has a timestamp, and none is found.
    have stampless : ∀ row, model.firstTimeAt row = none := by
      intro row
      rw [LogModel.firstTimeAt, first, Option.bind_none]
    refine ⟨fun _ row found => (by cases found), fun _ row found => (by cases found),
      fun _ row _ ts stamp => ?_⟩
    rw [stampless row] at stamp
    cases stamp
  | some timeCol =>
    have same : model.firstTimeAt = LogModel.timestampAt proxy.source.table timeCol := by
      funext row
      rw [LogModel.firstTimeAt, first, Option.bind_some, table]
    rw [same]
    apply findFirstRow_answers exact_
    intro monotonic
    rw [table]
    exact tracked.ascends monotonic first

section Example

/-- One time column. -/
def timeConfiguration : LogConfiguration :=
  ⟨[{ header := bytes "t", keys := [bytes "t"], printFormat := defaultPrintFormat,
      type := .time, parseFormats := [], levelMapping := [], autoDetect := false }], ⟨-1, false⟩⟩

/-- Rows with timestamps, and a row without one between them, in two batches. -/
def timedOps : List ModelOp :=
  [.beginStreaming (some (.stream .empty)),
    .appendBatch (fun _ => false) ⟨[.ofField 0 1 0 (.timestamp 5), ⟨.empty, 0, 2⟩], [],
    [bytes "t"], []⟩,
    .appendBatch (fun _ => false) ⟨[.ofField 0 3 0 (.timestamp 7), .ofField 0 4 0 (.timestamp 9)],
    [], [], []⟩]

/-- The model after them. -/
def timedModel : LogModel :=
  ((LogModel.ofConfiguration timeConfiguration).run (fun _ _ => none) timedOps).getD
    (.ofConfiguration timeConfiguration)

/-- Newest row first, the search for the sixth microsecond finds the third row of the log. -/
theorem timedModel_goesTo :
    (ofSource (SourceModel.ofTable timedModel.table).reversed).findFirstRowAtOrAfterTimestamp
      timedModel.timestampsMonotonic
        timedModel.table.configuration.firstTimeColumnIndex 6 = some 2 ∧
      (ofSource (SourceModel.ofTable timedModel.table).reversed).AnswersGoTo
        timedModel.timestampsMonotonic
        timedModel.firstTimeAt 6 (some 2) := by
  have found : (ofSource (SourceModel.ofTable
    timedModel.table).reversed).findFirstRowAtOrAfterTimestamp
      timedModel.timestampsMonotonic timedModel.table.configuration.firstTimeColumnIndex 6 =
        some 2 := by decide
  have keeps : Loglib.CleanRun (LogModel.step fun _ _ => none) (LogModel.KeepsTimes fun _ _ => none)
      (LogModel.ofConfiguration timeConfiguration) timedOps := by
    -- The batches keep the times, so the rows answer as the columns say.
    refine ⟨by decide, fun first begun => ?_⟩
    obtain rfl := Option.some.inj begun
    refine ⟨by decide, fun second taken => ?_⟩
    obtain rfl := Option.some.inj taken
    exact ⟨by decide, fun _ _ => trivial⟩
  have answers := goToTimestamp_answers keeps
    (show (LogModel.ofConfiguration timeConfiguration).run _ timedOps = some timedModel from rfl)
    (show (ofSource (SourceModel.ofTable timedModel.table).reversed).source.table =
      timedModel.table from rfl)
    (ofSource_exact (fun _ _ => []) _) 6
  rw [found] at answers
  exact ⟨found, answers⟩

end Example

end LogFilterModel

end Loglib
