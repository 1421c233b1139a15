import Loglib.Basic.Utf16Text
import Loglib.Order.LowerBound

/-! Find in the table: the scan for matching rows, the steps to the next and the previous one, and
the match counter. -/

namespace Loglib

/-- What is searched for: a text, and how it is meant. -/
structure FindQuery where
  text : Utf16Text
  wildcards : Bool
  regularExpressions : Bool
deriving DecidableEq

/-- The rows and columns that are shown, and which cells match. Some columns are hidden. -/
structure FindView where
  rowCount : Nat
  columnCount : Nat
  isColumnHidden : Nat → Bool
  probeCell : FindQuery → Nat → Nat → Bool

/-- `MAX_FIND_MATCH_COUNT`. -/
@[irreducible] def maxFindMatchCount : Nat := 10000

/-- `FindMatchCache`. -/
structure FindMatchCache where
  query : FindQuery
  overflowed : Bool
  sortedRows : List Nat
  totalMatches : Nat
  bucketCounts : List Nat

/-- The label beside the find bar. A plus marks a total that is a lower bound. -/
inductive MatchLabel where
  | blank
  | oneOf (current total : Nat) (plus : Bool)
  | matches_ (total : Nat) (plus : Bool)
deriving DecidableEq

/-- The current cell and the selected rows of the table, and what the find bar has found. -/
structure FindState where
  current : Option (Nat × Nat)
  selectedRows : List Nat
  findMatchCache : Option FindMatchCache
  label : MatchLabel
  barVisible : Bool
  /-- The buckets of the overview rail, none while it is hidden. -/
  bucketCount : Nat

namespace FindView

variable (view : FindView)

section Scan

variable (query : FindQuery)

/-- The first matching cell of a row, from a column on and round. -/
def scanRow (startColumn actualRow : Nat) : Option (Nat × Nat) :=
  (((List.range view.columnCount).map fun column => (startColumn + column) % view.columnCount).find?
    fun column =>
    !view.isColumnHidden column && view.probeCell query actualRow column).map (actualRow, ·)

/-- The row at a distance from the start, `none` where the scan ends without wrapping. -/
def actualRow (wrap forward : Bool) (startRow row : Nat) : Option Nat :=
  if forward then
    if startRow + row < view.rowCount then some (startRow + row)
    else if wrap then some (startRow + row - view.rowCount) else none
  else
    if row ≤ startRow then some (startRow - row)
    else if wrap then some (startRow + view.rowCount - row) else none

/-- The loop over the distances, until the callback does not want to go on. -/
def scanRows {σ : Type*} (wrap forward : Bool) (start : Nat × Nat)
    (onMatch : σ → Nat × Nat → σ × Bool) : List Nat → σ → σ
  | [], state => state
  | row :: rest, state =>
    match view.actualRow wrap forward start.1 row with
    -- Without wrapping, the scan ends at the last row in its direction.
    | none => state
    | some actualRow =>
      match view.scanRow query start.2 actualRow with
      -- A row without a match is passed.
      | none => scanRows wrap forward start onMatch rest state
      | some index =>
        let (state, goesOn) := onMatch state index
        if goesOn then scanRows wrap forward start onMatch rest state else state

/-- `ForEachMatchingRow`. -/
def forEachMatchingRow {σ : Type*} (start : Nat × Nat) (wrap forward : Bool) (skipFirstN : Nat)
    (onMatch : σ → Nat × Nat → σ × Bool) (state : σ) : σ :=
  view.scanRows query wrap forward start onMatch
    (List.range' skipFirstN (view.rowCount - skipFirstN)) state

/-- `MatchRow` with a number of hits. -/
def matchRow (hits : Nat) (start : Nat × Nat) (wrap forward : Bool) (skipFirstN : Nat) :
    List (Nat × Nat) :=
  view.forEachMatchingRow query start wrap forward skipFirstN
    (fun result index => (result ++ [index], (result ++ [index]).length < hits)) []

end Scan

section Counting

/-- What the walk over all matches gathers. -/
structure MatchTally where
  sortedRows : List Nat
  bucketCounts : List Nat
  totalMatches : Nat
  bucketsHit : Nat
  scanExhausted : Bool

/-- A match adds a tick to the bucket of its row. -/
def MatchTally.tick (tally : MatchTally) (rowCount row : Nat) : MatchTally :=
  if 0 < tally.bucketCounts.length ∧ 0 < rowCount then
    let slot := min (row * tally.bucketCounts.length / rowCount) (tally.bucketCounts.length - 1)
    { tally with
      bucketsHit := if tally.bucketCounts[slot]? = some 0 then tally.bucketsHit + 1
        else tally.bucketsHit
      bucketCounts := tally.bucketCounts.modify slot (· + 1) }
  else tally

/-- The callback of the walk: it ends once there are more matches than the cap and a tick
in every bucket. -/
def MatchTally.onMatch (rowCount : Nat) (tally : MatchTally) (index : Nat × Nat) :
    MatchTally × Bool :=
  let ticked := ({ tally with totalMatches := tally.totalMatches + 1 } : MatchTally).tick
    rowCount index.1
  -- Only as many rows are listed as the cap allows, but the walk counts on for the buckets.
  let listed : MatchTally :=
    if ticked.sortedRows.length <
      maxFindMatchCount then { ticked with sortedRows := ticked.sortedRows ++ [index.1] }
        else ticked
  if maxFindMatchCount < listed.totalMatches ∧
      (listed.bucketCounts.length = 0 ∨ listed.bucketCounts.length ≤ listed.bucketsHit) then
    ({ listed with scanExhausted := false }, false)
  else (listed, true)

/-- Rows as the binary search needs them, sorted and without duplicates, should they not be so. -/
def defensivelySorted (rows : List Nat) : List Nat :=
  let sorted := if rows.Pairwise (· ≤ ·) then rows else rows.mergeSort
  if sorted.IsChain (· ≠ ·) then sorted else sorted.destutter (· ≠ ·)

/-- The cache for a query, from a walk over all rows. -/
def buildMatchCache (query : FindQuery) (bucketCount : Nat) : FindMatchCache :=
  let tally := view.forEachMatchingRow query (0, 0) true true 0 (MatchTally.onMatch view.rowCount)
    ⟨[], List.replicate bucketCount 0, 0, 0, true⟩
  { query
    overflowed := !tally.scanExhausted || decide (maxFindMatchCount < tally.totalMatches)
    sortedRows := defensivelySorted tally.sortedRows
    totalMatches := tally.totalMatches
    bucketCounts := tally.bucketCounts }

end Counting

end FindView

namespace FindState

variable (view : FindView) (state : FindState)

/-- `SetMatchInfo`. -/
def setMatchInfo (current total : Nat) (overflowed : Bool) : FindState :=
  { state with
    label :=
      if total = 0 then .blank
      else if 0 < current then .oneOf current total overflowed
      else .matches_ total overflowed }

/-- The place of the current row among the matches, from one on, and zero where it is none. -/
def currentOneBased (cache : FindMatchCache) : Nat :=
  if 0 < cache.totalMatches then
    match state.current with
    | none => 0
    | some (row, _) =>
      let it := lowerBound (· < row) cache.sortedRows
      if cache.sortedRows[it]? = some row then it + 1 else 0
  else 0

/-- The counter, from a cache. -/
def showCache (cache : FindMatchCache) : FindState :=
  setMatchInfo { state with findMatchCache := some cache } (state.currentOneBased cache)
    cache.totalMatches cache.overflowed

/-- `UpdateFindMatchCount`. -/
def updateFindMatchCount (query : FindQuery) : FindState :=
  if state.barVisible = false then state
  else if query.text.chars = [] then setMatchInfo { state with findMatchCache := none } 0 0 false
  else match state.findMatchCache with
    | some cache =>
      -- A cache for the same query is shown as it is.
      if cache.query = query then state.showCache cache
      else if view.rowCount = 0 ∨
        view.columnCount = 0 then setMatchInfo { state with findMatchCache := none } 0 0 false
      else state.showCache (view.buildMatchCache query state.bucketCount)
    | none =>
      if view.rowCount = 0 ∨ view.columnCount =
        0 then setMatchInfo { state with findMatchCache := none } 0 0 false
      else state.showCache (view.buildMatchCache query state.bucketCount)

/-- A match becomes the current cell, and its row the selected one. -/
def selectMatch : Option (Nat × Nat) → FindState
  | none => state
  | some found => { state with current := some found, selectedRows := [found.1] }

/-- `MainWindow::FindRecords`. Without a current cell the search starts at the first one. -/
def findRecords (query : FindQuery) (next : Bool) : FindState :=
  let searchStartIndex := state.current.getD (0, 0)
  -- A row that is selected has been found already.
  let skipFirstN := if state.selectedRows.contains searchStartIndex.1 then 1 else 0
  let moved := state.selectMatch (view.matchRow query 1 searchStartIndex true next skipFirstN).head?
  if moved.barVisible then moved.updateFindMatchCount view query else moved

/-- `FindNext` and `FindPrevious` of the find bar: without a text they do nothing. -/
def find (query : FindQuery) (next : Bool) : FindState :=
  if query.text.chars = [] then state else state.findRecords view query next

end FindState

end Loglib
