import Loglib.App.FilterSignals
import Loglib.Basic.Runs
import Loglib.Basic.PositionRanges
import Loglib.Order.LowerBound

/-! The row-order proxy: what it announces as its source changes or the order turns round, and where
persistent indices end up. -/

namespace Loglib

/-- What the proxy tells its listeners. A range of rows includes both ends. -/
inductive RowAnnouncement where
  | rowsInserted (first last : Nat)
  | rowsRemoved (first last : Nat)
  | dataChanged (topLeft bottomRight : Nat × Nat)
  | layoutChanged
deriving DecidableEq, Repr

namespace RowAnnouncement

/-- Where Qt moves a persistent index, `none` once its row is removed. A change of the layout leaves
that to the model. -/
def moveIndex : RowAnnouncement → Nat × Nat → Option (Nat × Nat)
  | .rowsInserted first last, (row, column) =>
    some (placeAfterInsert first (last + 1 - first) row, column)
  | .rowsRemoved first last, (row, column) =>
    if first ≤ row ∧ row ≤ last then none
    else some (placeAfterRemove first (last + 1 - first) row, column)
  | .dataChanged _ _, index => some index
  | .layoutChanged, index => some index

/-- The rows of a listener that heeds the announced ranges, and reads in what has been inserted. -/
def heed {α : Type*} (before after : List α) : RowAnnouncement → List α
  | .rowsInserted first last =>
    insertBlock before first ((after.drop first).take (last + 1 - first))
  | .rowsRemoved first last => eraseRange before (first, last)
  | .dataChanged _ _ => before
  | .layoutChanged => after

end RowAnnouncement

/-- A `RowOrderProxyModel` over the rows of a source, with the persistent indices that are held on
it: their row and column, `none` for one that is valid no longer. -/
structure RowOrderProxyModel (α : Type*) where
  sourceRows : List α
  columnCount : Nat
  reversed : Bool
  persistents : List (Option (Nat × Nat))

/-- What happens to the source, or is asked of the proxy. -/
inductive RowOrderEvent (α : Type*) where
  | rowsAppended (rows : List α)
  | rowsRemoved (first last : Nat)
  | dataChanged (topLeft bottomRight : Nat × Nat)
  | setReversed (reversed : Bool)
  /-- Somebody starts to hold an index of the proxy. -/
  | persistentCreated (row column : Nat)

namespace RowOrderProxyModel

variable {α : Type*} (proxy : RowOrderProxyModel α)

/-- A proxy that has just been given its source. -/
def ofSource (sourceRows : List α) (columnCount : Nat) : RowOrderProxyModel α :=
  ⟨sourceRows, columnCount, false, []⟩

/-- `rowCount`. -/
def rowCount : Nat := proxy.sourceRows.length

/-- `index` of the source, `none` for one that it does not have. -/
def sourceIndex (row column : Nat) : Option (Nat × Nat) :=
  if row < proxy.rowCount ∧ column < proxy.columnCount then some (row, column) else none

/-- `mapFromSource`. -/
def mapFromSource (index : Nat × Nat) : Option (Nat × Nat) :=
  if proxy.reversed = false then some index
  else if proxy.rowCount = 0 then none
  else some (proxy.rowCount - 1 - index.1, index.2)

/-- `mapToSource`. -/
def mapToSource (index : Nat × Nat) : Option (Nat × Nat) :=
  if proxy.reversed = false then proxy.sourceIndex index.1 index.2
  else if proxy.rowCount = 0 then none
  else proxy.sourceIndex (proxy.rowCount - 1 - index.1) index.2

section Handlers

/-- The handler of `rowsAboutToBeInserted`. -/
def rowsAboutToBeInserted (first last : Nat) : RowAnnouncement :=
  if proxy.reversed then .rowsInserted 0 (last - first) else .rowsInserted first last

/-- The handler of `rowsAboutToBeRemoved`, which still sees the rows that go. -/
def rowsAboutToBeRemoved (first last : Nat) : RowAnnouncement :=
  if proxy.reversed then .rowsRemoved (proxy.rowCount - 1 - last) (proxy.rowCount - 1 - first)
    else .rowsRemoved first last

/-- `HandleSourceDataChanged`. -/
def handleSourceDataChanged (topLeft bottomRight : Nat × Nat) : Option RowAnnouncement :=
  if proxy.reversed = false then
    (proxy.mapFromSource topLeft).bind fun first =>
      (proxy.mapFromSource bottomRight).map (.dataChanged first ·)
  else if proxy.rowCount = 0 then none
  else some (.dataChanged (proxy.rowCount - 1 - bottomRight.1,
    topLeft.2) (proxy.rowCount - 1 - topLeft.1, bottomRight.2))

/-- A persistent index in the other order. -/
def remapPersistent (index : Nat × Nat) : Nat × Nat :=
  if proxy.rowCount = 0 then index else (proxy.rowCount - 1 - index.1, index.2)

/-- `SetReversed`. -/
def setReversed (reversed : Bool) : RowOrderProxyModel α × Option RowAnnouncement :=
  if proxy.reversed = reversed then (proxy, none)
  else ({ proxy with reversed, persistents := proxy.persistents.map (·.map proxy.remapPersistent) },
    some .layoutChanged)

/-- The source announces a change, the proxy passes it on, and then the source changes. -/
def followSource (announced : RowAnnouncement) (sourceRows : List α) :
    RowOrderProxyModel α × Option RowAnnouncement :=
  ({ proxy with sourceRows, persistents := proxy.persistents.map (·.bind announced.moveIndex) },
    some announced)

/-- What becomes of the proxy, and what it announces. -/
def step : RowOrderEvent α → RowOrderProxyModel α × Option RowAnnouncement
  | .rowsAppended rows =>
    proxy.followSource (proxy.rowsAboutToBeInserted proxy.rowCount
      (proxy.rowCount + rows.length - 1)) (proxy.sourceRows ++ rows)
  | .rowsRemoved first last =>
    proxy.followSource (proxy.rowsAboutToBeRemoved first last)
      (eraseRange proxy.sourceRows (first, last))
  | .dataChanged topLeft bottomRight => (proxy, proxy.handleSourceDataChanged topLeft bottomRight)
  | .setReversed reversed => proxy.setReversed reversed
  | .persistentCreated row column =>
    ({ proxy with persistents := proxy.persistents ++ [some (row, column)] }, none)

/-- The proxy after some events. -/
def run (events : List (RowOrderEvent α)) : RowOrderProxyModel α :=
  events.foldl (fun next event => (next.step event).1) proxy

/-- An event that can happen: ranges are ranges of rows that are there. -/
def Fits : RowOrderEvent α → Prop
  | .rowsAppended rows => rows ≠ []
  | .rowsRemoved first last => first ≤ last ∧ last < proxy.rowCount
  | .dataChanged topLeft bottomRight =>
    (topLeft.1 ≤ bottomRight.1 ∧ bottomRight.1 < proxy.rowCount) ∧ topLeft.2 ≤ bottomRight.2 ∧
      bottomRight.2 < proxy.columnCount
  | .setReversed _ => True
  | .persistentCreated row column => row < proxy.rowCount ∧ column < proxy.columnCount

/-- Events that can happen one after the other. -/
abbrev FittingRun (proxy : RowOrderProxyModel α) (events : List (RowOrderEvent α)) : Prop :=
  FollowedRun (fun next event => (step next event).1) Fits proxy events

end Handlers

/-- The source rows in the order in which the proxy is to show them. -/
def shown : List α := if proxy.reversed then proxy.sourceRows.reverse else proxy.sourceRows

section Mapping

variable {proxy} {row column : Nat}

/-- The row of the source behind a row of the proxy, and the other way round. -/
def acrossRow (proxy : RowOrderProxyModel α) (row : Nat) : Nat :=
  if proxy.reversed then proxy.rowCount - 1 - row else row

/-- Across twice is back. -/
theorem acrossRow_acrossRow (inside : row < proxy.rowCount) :
    proxy.acrossRow (proxy.acrossRow row) = row := by
  unfold acrossRow
  split <;> omega

/-- Across stays among the rows. -/
theorem acrossRow_lt (inside : row < proxy.rowCount) : proxy.acrossRow row < proxy.rowCount := by
  unfold acrossRow
  split <;> omega

/-- A row of the source is shown across. -/
theorem mapFromSource_eq (inside : row < proxy.rowCount) :
    proxy.mapFromSource (row, column) = some (proxy.acrossRow row, column) := by
  unfold mapFromSource acrossRow
  cases proxy.reversed with
  | false => rfl
  | true => rw [if_neg Bool.true_eq_false_eq_False, if_neg (by omega), if_pos rfl]

/-- A row of the proxy shows the one across. -/
theorem mapToSource_eq (inside : row < proxy.rowCount) (inColumns : column < proxy.columnCount) :
    proxy.mapToSource (row, column) = some (proxy.acrossRow row, column) := by
  -- The index across is one that the source has.
  have across := acrossRow_lt inside
  unfold acrossRow at across ⊢
  unfold mapToSource sourceIndex
  cases reversed : proxy.reversed with
  | false => simp [inside, inColumns]
  | true =>
    rw [reversed, if_pos rfl] at across
    simp [across, inColumns, show proxy.rowCount ≠ 0 by omega]

/-- The row across is the one that is shown. -/
theorem getElem?_shown (inside : row < proxy.rowCount) :
    proxy.shown[row]? = proxy.sourceRows[proxy.acrossRow row]? := by
  unfold shown acrossRow
  split
  · exact List.getElem?_reverse inside
  · rfl

end Mapping

section Announcements

variable {proxy}

/-- The reverse of a list without a range is without the mirrored range. -/
theorem reverse_eraseRange {rows : List α} {first last : Nat} (ordered : first ≤ last)
    (inside : last < rows.length) :
    (eraseRange rows (first, last)).reverse = eraseRange rows.reverse
      (rows.length - 1 - last, rows.length - 1 - first) := by
  unfold eraseRange
  -- Mirrored, the part behind the range comes first, and the part before it last.
  have back : rows.length - (rows.length - 1 - last) = last + 1 := by omega
  have front : rows.length - (rows.length - 1 - first + 1) = first := by omega
  rw [List.reverse_append, List.take_reverse, List.drop_reverse, back, front]

/-- Whoever heeds the announcement of a removal shows the rows that are left. -/
theorem heed_rowsRemoved {first last : Nat} (ordered : first ≤ last)
    (inside : last < proxy.rowCount) (after : List α) :
    (proxy.rowsAboutToBeRemoved first last).heed proxy.shown after =
      shown { proxy with sourceRows := eraseRange proxy.sourceRows (first, last) } := by
  unfold rowsAboutToBeRemoved shown
  cases proxy.reversed with
  | false => rfl
  | true => exact (reverse_eraseRange ordered inside).symm

/-- Whoever heeds the announcement of an append shows the new rows as well. -/
theorem heed_rowsInserted {rows : List α} (some_ : rows ≠ []) :
    (proxy.rowsAboutToBeInserted proxy.rowCount (proxy.rowCount + rows.length - 1)).heed proxy.shown
      (shown { proxy with sourceRows := proxy.sourceRows ++ rows }) =
      shown { proxy with sourceRows := proxy.sourceRows ++ rows } := by
  have positive := List.length_pos_iff.mpr some_
  unfold rowsAboutToBeInserted shown rowCount
  -- The newest rows come last, and first in the reverse order.
  cases proxy.reversed with
  | false =>
    have count : proxy.sourceRows.length + rows.length - 1 + 1 - proxy.sourceRows.length =
        rows.length := by omega
    simp [RowAnnouncement.heed, insertBlock, count]
  | true =>
    have count : proxy.sourceRows.length + rows.length - 1 - proxy.sourceRows.length + 1 =
        rows.reverse.length := by
      rw [List.length_reverse]
      omega
    simp only [RowAnnouncement.heed, insertBlock, if_true, List.reverse_append, List.drop_zero,
      List.take_zero,
      List.nil_append, Nat.sub_zero, count, List.take_left]

/-- An announcement of changed data is for the rows that show them. -/
theorem handleSourceDataChanged_eq {topLeft bottomRight : Nat × Nat}
    (ordered : topLeft.1 ≤ bottomRight.1)
    (inside : bottomRight.1 < proxy.rowCount) :
    ∃ firstRow lastRow, proxy.handleSourceDataChanged topLeft bottomRight =
        some (.dataChanged (firstRow, topLeft.2) (lastRow, bottomRight.2)) ∧
      ∀ row < proxy.rowCount, (firstRow ≤ row ∧ row ≤ lastRow) ↔
        (topLeft.1 ≤ proxy.acrossRow row ∧ proxy.acrossRow row ≤ bottomRight.1) := by
  unfold handleSourceDataChanged mapFromSource acrossRow
  cases proxy.reversed with
  | false => exact ⟨topLeft.1, bottomRight.1, rfl, fun row _ => Iff.rfl⟩
  | true =>
    rw [if_neg Bool.true_eq_false_eq_False, if_neg (by omega)]
    -- Mirroring turns the order of the two ends round.
    refine ⟨_, _, rfl, fun row known => ?_⟩
    rw [if_pos rfl]
    omega

end Announcements

end RowOrderProxyModel

/-- Where an event leaves a row of the source, `none` if it removes the row. -/
def RowOrderEvent.place {α : Type*} : RowOrderEvent α → Nat → Option Nat
  | .rowsRemoved first last, row =>
    if first ≤ row ∧ row ≤ last then none else some (placeAfterRemove first (last + 1 - first) row)
  | _, row => some row

/-- Where events leave a row of the source. -/
def RowOrderEvent.placeAfter {α : Type*} (events : List (RowOrderEvent α)) (row : Nat) :
    Option Nat :=
  events.foldlM (fun row event => event.place row) row

namespace RowOrderProxyModel

open RowOrderEvent (placeAfter)

variable {α : Type*} {proxy : RowOrderProxyModel α} {event : RowOrderEvent α}
    {row column position : Nat}

section Persistents

/-- A row of the source is the same one at its new place. -/
theorem place_keeps (fits : proxy.Fits event) (inside : row < proxy.rowCount) {next : Nat}
    (placed : event.place row = some next) :
    next < (proxy.step event).1.rowCount ∧
      (proxy.step event).1.sourceRows[next]? = proxy.sourceRows[row]? := by
  cases event with
  | rowsAppended rows =>
    obtain rfl := Option.some.inj placed
    -- Rows that come behind it leave the row where it is.
    refine ⟨?_, List.getElem?_append_left inside⟩
    simp only [step, followSource, rowCount, List.length_append]
    exact Nat.lt_add_right _ inside
  | rowsRemoved first last =>
    simp only [RowOrderEvent.place] at placed
    split at placed
    · cases placed
    · rename_i stays
      obtain rfl := Option.some.inj placed
      obtain ⟨ordered, known⟩ := fits
      simp only [step, followSource, rowCount, eraseRange, placeAfterRemove, List.length_append,
        List.length_take,
        List.length_drop, List.getElem?_append, List.getElem?_take,
        List.getElem?_drop] at inside known ⊢
      -- A row before the range stays, and one behind it moves up by its length.
      split
      · refine ⟨by omega, ?_⟩
        rw [if_neg (by omega)]
        congr 1
        omega
      · refine ⟨by omega, ?_⟩
        rw [if_pos (by omega), if_pos (by omega)]
  | dataChanged topLeft bottomRight =>
    obtain rfl := Option.some.inj placed
    exact ⟨inside, rfl⟩
  | setReversed reversed =>
    obtain rfl := Option.some.inj placed
    simp only [step, setReversed]
    split
    · exact ⟨inside, rfl⟩
    · exact ⟨inside, rfl⟩
  | persistentCreated row column =>
    obtain rfl := Option.some.inj placed
    exact ⟨inside, rfl⟩

/-- A persistent index goes where its row goes. -/
theorem persistents_step (fits : proxy.Fits event) (inside : row < proxy.rowCount)
    (held : proxy.persistents[position]? = some (some (proxy.acrossRow row, column))) :
    (proxy.step event).1.persistents[position]? =
      some ((event.place row).map fun next => ((proxy.step event).1.acrossRow next, column)) := by
  cases event with
  | rowsAppended rows =>
    -- Rows before the index push it down in the reverse order, and none are before it otherwise.
    have positive := List.length_pos_iff.mpr fits
    simp only [step, followSource, List.getElem?_map, held, Option.map_some, Option.bind_some,
      RowOrderEvent.place,
      rowsAboutToBeInserted, acrossRow, rowCount, List.length_append, Option.some.injEq] at inside ⊢
    split
    · simp only [RowAnnouncement.moveIndex, placeAfterInsert, Option.some.injEq,
        Prod.mk.injEq, and_true]
      rw [if_pos (Nat.zero_le _)]
      omega
    · simp only [RowAnnouncement.moveIndex, placeAfterInsert, Option.some.injEq,
        Prod.mk.injEq, and_true]
      rw [if_neg (by omega)]
  | rowsRemoved first last =>
    obtain ⟨ordered, known⟩ := fits
    simp only [step, followSource, List.getElem?_map, held, Option.map_some, Option.bind_some,
      RowOrderEvent.place,
      rowsAboutToBeRemoved, acrossRow, rowCount, eraseRange, placeAfterRemove, List.length_append,
      List.length_take,
      List.length_drop, Option.some.injEq] at inside known ⊢
    -- The mirrored range is left by the mirrored rows, on the other side.
    split
    · simp only [RowAnnouncement.moveIndex, placeAfterRemove]
      by_cases removed : first ≤ row ∧ row ≤ last
      · rw [if_pos removed, if_pos (by omega), Option.map_none]
      · rw [if_neg removed, if_neg (by omega), Option.map_some, Option.some.injEq, Prod.mk.injEq]
        refine ⟨?_, rfl⟩
        split <;> split <;> omega
    · simp only [RowAnnouncement.moveIndex, placeAfterRemove]
      by_cases removed : first ≤ row ∧ row ≤ last
      · rw [if_pos removed, if_pos removed, Option.map_none]
      · rw [if_neg removed, if_neg removed, Option.map_some]
  | dataChanged topLeft bottomRight => exact held
  | setReversed reversed =>
    simp only [step, setReversed, RowOrderEvent.place, Option.map_some]
    split
    · exact held
    · rename_i differs
      -- Mirroring the index goes with mirroring the mapping.
      have some_ : proxy.rowCount ≠ 0 := by omega
      have back := acrossRow_acrossRow inside
      simp only [List.getElem?_map, held, Option.map_some, remapPersistent, if_neg some_,
        Option.some.injEq, Prod.mk.injEq,
        and_true]
      unfold acrossRow at back ⊢
      cases was : proxy.reversed with
      | false =>
        have turned : reversed = true := by simpa [was] using differs
        rw [turned]
        rfl
      | true =>
        have turned : reversed = false := by simpa [was] using differs
        rw [was] at back
        rw [turned]
        exact back
  | persistentCreated newRow newColumn =>
    simp only [step, RowOrderEvent.place, Option.map_some]
    rw [List.getElem?_append_left (List.getElem?_eq_some_iff.mp held).1]
    exact held

/-- An index that is valid no longer stays so. -/
theorem persistents_step_none (held : proxy.persistents[position]? = some none) :
    (proxy.step event).1.persistents[position]? = some none := by
  -- No event gives an index back that has been lost.
  cases event with
  | rowsAppended rows => simp [step, followSource, held]
  | rowsRemoved first last => simp [step, followSource, held]
  | dataChanged topLeft bottomRight => exact held
  | setReversed reversed =>
    simp only [step, setReversed]
    split
    · exact held
    · simp [held]
  | persistentCreated newRow newColumn =>
    simp only [step]
    rw [List.getElem?_append_left (List.getElem?_eq_some_iff.mp held).1]
    exact held

/-- A valid index was valid before the event, or has just been created. -/
theorem persistents_before {index : Nat × Nat}
    (held : (proxy.step event).1.persistents[position]? = some (some index)) :
    (∃ old, proxy.persistents[position]? = some (some old)) ∨
      event = .persistentCreated index.1 index.2 := by
  -- Following rows and turning around move an index that was there; only a creation adds one.
  cases event with
  | rowsAppended rows =>
    simp only [step, followSource, List.getElem?_map, Option.map_eq_some_iff,
      Option.bind_eq_some_iff] at held
    obtain ⟨_, same, old, rfl, -⟩ := held
    exact .inl ⟨old, same⟩
  | rowsRemoved first last =>
    simp only [step, followSource, List.getElem?_map, Option.map_eq_some_iff,
      Option.bind_eq_some_iff] at held
    obtain ⟨_, same, old, rfl, -⟩ := held
    exact .inl ⟨old, same⟩
  | dataChanged topLeft bottomRight => exact .inl ⟨index, held⟩
  | setReversed reversed =>
    simp only [step, setReversed] at held
    split at held
    · exact .inl ⟨index, held⟩
    · simp only [List.getElem?_map, Option.map_eq_some_iff] at held
      obtain ⟨_, same, old, rfl, -⟩ := held
      exact .inl ⟨old, same⟩
  | persistentCreated newRow newColumn =>
    simp only [step] at held
    -- The new index is the last one.
    rw [List.getElem?_append] at held
    split at held
    · exact .inl ⟨index, held⟩
    · rw [List.getElem?_singleton] at held
      split at held
      · obtain rfl := Option.some.inj (Option.some.inj held)
        exact .inr rfl
      · cases held

end Persistents

section Runs

/-- The valid indices are indices of the proxy. -/
def PersistentsInside (proxy : RowOrderProxyModel α) : Prop :=
  ∀ position row column : Nat, proxy.persistents[position]? = some (some (row, column)) →
    row < proxy.rowCount ∧ column < proxy.columnCount

/-- No event changes the columns. -/
theorem step_columnCount : (proxy.step event).1.columnCount = proxy.columnCount := by
  cases event with
  | setReversed reversed =>
    simp only [step, setReversed]
    split <;> rfl
  | _ => rfl

/-- The valid indices stay indices of the proxy. -/
theorem persistentsInside_step (inside : proxy.PersistentsInside) (fits : proxy.Fits event) :
    (proxy.step event).1.PersistentsInside := by
  intro position row column held
  rcases persistents_before held with ⟨⟨oldRow, oldColumn⟩, before⟩ | rfl
  · obtain ⟨inRows, inColumns⟩ := inside position oldRow oldColumn before
    -- The row behind the index is still there, and the index is across from it.
    have across : proxy.acrossRow (proxy.acrossRow oldRow) = oldRow := acrossRow_acrossRow inRows
    rw [← across] at before
    have moved := persistents_step fits (acrossRow_lt inRows) before
    rw [held, Option.some.injEq, eq_comm, Option.map_eq_some_iff] at moved
    obtain ⟨next, placed, same⟩ := moved
    obtain ⟨rfl, rfl⟩ := Prod.mk.inj same
    exact ⟨acrossRow_lt (place_keeps fits (acrossRow_lt inRows) placed).1,
      step_columnCount.symm ▸ inColumns⟩
  · -- A new index is put behind the ones that were there, and it is one of the proxy.
    by_cases old : position < proxy.persistents.length
    · simp only [step] at held
      rw [List.getElem?_append_left old] at held
      exact inside position row column held
    · exact fits

/-- The valid indices are indices of the proxy after all events. -/
theorem persistentsInside_run {events : List (RowOrderEvent α)} (inside : proxy.PersistentsInside)
    (fitting : proxy.FittingRun events) : (proxy.run events).PersistentsInside :=
  FollowedRun.invariant (fun _ _ inside fits => persistentsInside_step inside fits) fitting inside

/-- An index that is valid no longer stays so after all events. -/
theorem persistents_run_none (events : List (RowOrderEvent α))
    (held : proxy.persistents[position]? = some none) :
    (proxy.run events).persistents[position]? = some none := by
  induction events generalizing proxy with
  | nil => exact held
  | cons event rest ih => exact ih (persistents_step_none held)

/-- A persistent index goes where its row goes, event after event. -/
theorem persistents_run {events : List (RowOrderEvent α)} (fitting : proxy.FittingRun events)
    (inside : row < proxy.rowCount)
    (held : proxy.persistents[position]? = some (some (proxy.acrossRow row, column))) :
    (proxy.run events).persistents[position]? =
        some ((placeAfter events row).map fun next => ((proxy.run events).acrossRow next, column)) ∧
      ∀ next, placeAfter events row = some next →
        next < (proxy.run events).rowCount ∧
          (proxy.run events).sourceRows[next]? = proxy.sourceRows[row]? := by
  induction events generalizing proxy row with
  | nil =>
    refine ⟨held, fun next placed => ?_⟩
    obtain rfl := Option.some.inj placed
    exact ⟨inside, rfl⟩
  | cons event rest ih =>
    -- The first event leaves the index where the row is, from where the others take it on.
    have moved := persistents_step fitting.1 inside held
    have split : placeAfter (event :: rest) row = (event.place row).bind (placeAfter rest) :=
      List.foldlM_cons
    rw [split]
    cases placed : event.place row with
    | none =>
      rw [placed] at moved
      -- A row that is removed takes its index with it for good.
      have lost : (proxy.step event).1.persistents[position]? = some none := moved
      have stays := persistents_run_none rest lost
      exact ⟨stays, fun next gone => by cases gone⟩
    | some next =>
      rw [placed, Option.map_some] at moved
      obtain ⟨nextInside, same⟩ := place_keeps fitting.1 inside placed
      obtain ⟨final, kept⟩ := ih fitting.2 nextInside moved
      exact ⟨final, fun last found => ⟨(kept last found).1, (kept last found).2.trans same⟩⟩

end Runs

/-- Every row of the proxy shows one of the source, and the mappings lead from each to the other. -/
structure MapsRows (proxy : RowOrderProxyModel α) : Prop where
  there : ∀ row < proxy.rowCount, ∀ column < proxy.columnCount, ∃ sourceRow < proxy.rowCount,
    proxy.mapToSource (row, column) = some (sourceRow, column) ∧
      proxy.mapFromSource (sourceRow, column) = some (row, column) ∧
        proxy.shown[row]? = proxy.sourceRows[sourceRow]?
  back : ∀ sourceRow < proxy.rowCount, ∀ column < proxy.columnCount, ∃ row < proxy.rowCount,
    proxy.mapFromSource (sourceRow, column) = some (row, column) ∧
      proxy.mapToSource (row, column) = some (sourceRow, column)

/-- What an event is to be announced as, beyond the rows that come and go: turning the order round
turns the shown rows round, and changed data is announced for the rows that show it. -/
def Reports (proxy : RowOrderProxyModel α) : RowOrderEvent α → Prop
  | .setReversed reversed =>
    (proxy.setReversed reversed).1.shown = if proxy.reversed = reversed then proxy.shown
      else proxy.shown.reverse
  | .dataChanged topLeft bottomRight => ∃ firstRow lastRow,
    proxy.handleSourceDataChanged topLeft bottomRight = some
      (.dataChanged (firstRow, topLeft.2) (lastRow, bottomRight.2)) ∧
      ∀ row < proxy.rowCount, ∀ column sourceRow, proxy.mapToSource (row, column) = some
        (sourceRow, column) →
        (firstRow ≤ row ∧ row ≤ lastRow ↔ topLeft.1 ≤ sourceRow ∧ sourceRow ≤ bottomRight.1)
  | _ => True

/-- The announcement of an event says what changes: a listener that heeds it shows what the proxy
shows, and nothing changes without one. -/
structure Announces (proxy : RowOrderProxyModel α) (event : RowOrderEvent α) : Prop where
  heeded : ∀ announced, (proxy.step event).2 = some announced →
    announced.heed proxy.shown (proxy.step event).1.shown = (proxy.step event).1.shown
  silent : (proxy.step event).2 = none → (proxy.step event).1.shown = proxy.shown
  reports : proxy.Reports event

/-- The mappings go across. -/
theorem mapsRows (proxy : RowOrderProxyModel α) : proxy.MapsRows where
  there row inside column inColumns := by
    have across := acrossRow_lt inside
    -- The row across is shown here, and is mapped back here.
    refine ⟨_, across, mapToSource_eq inside inColumns, ?_, getElem?_shown inside⟩
    rw [mapFromSource_eq across, acrossRow_acrossRow inside]
  back sourceRow inside column inColumns := by
    have across := acrossRow_lt inside
    refine ⟨_, across, mapFromSource_eq inside, ?_⟩
    rw [mapToSource_eq across inColumns, acrossRow_acrossRow inside]

/-- Turning the order round turns the shown rows round. -/
theorem shown_setReversed (proxy : RowOrderProxyModel α) (reversed : Bool) :
    (proxy.setReversed reversed).1.shown = if proxy.reversed = reversed then proxy.shown
      else proxy.shown.reverse := by
  unfold setReversed
  split
  · rfl
  · -- Turning the order over twice gives the old one.
    rename_i differs
    unfold shown
    cases was : proxy.reversed with
    | false =>
      have turned : reversed = true := by simpa [was] using differs
      rw [turned]
      rfl
    | true =>
      have turned : reversed = false := by simpa [was] using differs
      rw [turned, if_pos rfl, List.reverse_reverse]
      rfl

/-- The source row that an index is mapped to is the one across. -/
theorem acrossRow_of_mapToSource {sourceRow : Nat}
    (mapped : proxy.mapToSource (row, column) = some (sourceRow, column)) :
    proxy.acrossRow row = sourceRow := by
  -- A mapped row is the row that the proxy goes to across.
  have answered {across : Nat} (found : proxy.sourceIndex across column = some (sourceRow,
      column)) : across = sourceRow := by
    unfold sourceIndex at found
    split at found
    · exact (Prod.mk.inj (Option.some.inj found)).1
    · cases found
  unfold mapToSource at mapped
  unfold acrossRow
  cases turned : proxy.reversed with
  | false =>
    rw [turned, if_pos rfl] at mapped
    exact answered mapped
  | true =>
    rw [turned, if_neg Bool.true_eq_false_eq_False] at mapped
    split at mapped
    · cases mapped
    · exact answered mapped

/-- Every event that can happen is announced as what it is. -/
theorem announces_of_fits (fits : proxy.Fits event) : proxy.Announces event := by
  cases event with
  | rowsAppended rows =>
    refine ⟨fun announced same => ?_, (nomatch ·), trivial⟩
    obtain rfl := Option.some.inj same
    exact heed_rowsInserted fits
  | rowsRemoved first last =>
    refine ⟨fun announced same => ?_, (nomatch ·), trivial⟩
    obtain rfl := Option.some.inj same
    exact heed_rowsRemoved fits.1 fits.2 _
  | dataChanged topLeft bottomRight =>
    -- The rows of the range are those across from the changed ones.
    obtain ⟨firstRow, lastRow, announced, exact_⟩ := handleSourceDataChanged_eq fits.1.1 fits.1.2
    refine ⟨fun heard same => ?_, fun _ => rfl, firstRow, lastRow, announced,
      fun row inside column sourceRow mapped => ?_⟩
    · obtain rfl := Option.some.inj (announced.symm.trans same)
      rfl
    · rw [← acrossRow_of_mapToSource mapped]
      exact exact_ row inside
  | setReversed reversed =>
    refine ⟨fun heard same => ?_, fun silent => ?_, shown_setReversed proxy reversed⟩
    · simp only [step, setReversed] at same ⊢
      split at same
      · cases same
      · obtain rfl := Option.some.inj same
        rfl
    · -- Without an announcement the order was the one asked for.
      simp only [step, setReversed] at silent ⊢
      split at silent
      · rename_i unchanged
        rw [if_pos unchanged]
      · cases silent
  | persistentCreated row column => exact ⟨fun _ => (nomatch ·), fun _ => rfl, trivial⟩

/-- The row-order proxy announces exactly what changes: from every state that events lead to, its
mappings are inverse to each other, every event is announced as what it is, and a persistent index
goes on to designate the row of the source that it designates, wherever later events leave that row,
until the row is removed. -/
theorem run_announces {sourceRows : List α} {columnCount : Nat} {events : List (RowOrderEvent α)}
    (fitting : (ofSource sourceRows columnCount).FittingRun events) :
    let reached := (ofSource sourceRows columnCount).run events
    reached.MapsRows ∧ (∀ event, reached.Fits event → reached.Announces event) ∧
      ∀ later, reached.FittingRun later → ∀ position row column : Nat,
        reached.persistents[position]? = some (some (row, column)) → ∃ sourceRow,
          reached.mapToSource (row, column) = some (sourceRow, column) ∧
          (reached.run later).persistents[position]? =
            some ((placeAfter later sourceRow).bind fun next =>
              (reached.run later).mapFromSource (next, column)) ∧
          ∀ next, placeAfter later sourceRow = some next →
            next < (reached.run later).rowCount ∧
              (reached.run later).sourceRows[next]? = reached.sourceRows[sourceRow]? := by
  intro reached
  refine ⟨reached.mapsRows, fun event fits => announces_of_fits fits,
    fun later laterFits position row column held => ?_⟩
  -- A new proxy holds no indices, and each index that is made is one of the proxy.
  have none_ : (ofSource sourceRows columnCount).PersistentsInside :=
    fun position row column held => by cases held
  obtain ⟨inRows, inColumns⟩ := persistentsInside_run none_ fitting position row column held
  have across := acrossRow_lt inRows
  rw [← acrossRow_acrossRow inRows] at held
  obtain ⟨moved, kept⟩ := persistents_run laterFits across held
  refine ⟨_, mapToSource_eq inRows inColumns, moved.trans (congrArg some ?_), kept⟩
  -- Wherever its row is left, the index is the one that shows it.
  cases placed : placeAfter later (reached.acrossRow row) with
  | none => rfl
  | some next => exact (mapFromSource_eq (kept next placed).1).symm

/-- The index of the newest of three rows, in reverse order, after the oldest row has gone and a
newer one has come. -/
theorem run_announces_tail :
    ∃ reached : RowOrderProxyModel Nat, reached.persistents = [some (0, 0)] ∧
      ∃ sourceRow, reached.mapToSource (0, 0) = some (sourceRow, 0) ∧
        (reached.run [.rowsRemoved 0 0, .rowsAppended [13]]).persistents[0]? =
          some ((placeAfter [.rowsRemoved 0 0, .rowsAppended [13]] sourceRow).bind fun next =>
            (reached.run [.rowsRemoved 0 0, .rowsAppended [13]]).mapFromSource (next, 0)) := by
  -- The order is reversed and an index is kept before the rows change.
  have fitting : (ofSource [10, 11, 12] 1).FittingRun [.setReversed true, .persistentCreated 0 0] :=
    ⟨trivial, ⟨by decide, by decide⟩, trivial⟩
  obtain ⟨-, -, follows⟩ := run_announces fitting
  obtain ⟨sourceRow, mapped, moved, -⟩ :=
    follows [.rowsRemoved 0 0, .rowsAppended [13]] ⟨⟨by decide, by decide⟩,
      List.cons_ne_nil _ _, trivial⟩
    0 0 0 rfl
  exact ⟨_, rfl, sourceRow, mapped, moved⟩

end RowOrderProxyModel

end Loglib
