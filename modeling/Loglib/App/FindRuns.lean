import Loglib.App.FindSteps

/-! Runs of find: the match counter and its cache, and what the steps do in every state
that events lead to. -/

namespace Loglib

namespace FindView

variable {view : FindView} {query : FindQuery}

section Counting

/-- A tick only concerns the buckets. -/
theorem MatchTally.tick_eq (tally : MatchTally) (rowCount row : Nat) :
    (tally.tick rowCount row).sortedRows = tally.sortedRows ∧
      (tally.tick rowCount row).totalMatches = tally.totalMatches ∧
      (tally.tick rowCount row).scanExhausted = tally.scanExhausted := by
  unfold MatchTally.tick
  split <;> exact ⟨rfl, rfl, rfl⟩

/-- Up to the cap the walk goes on, and lists all rows that it comes to. -/
theorem visit_onMatch (rowCount : Nat) (hits : List (Nat × Nat)) (tally : MatchTally)
    (listed : tally.totalMatches = tally.sortedRows.length)
    (few : tally.sortedRows.length + hits.length ≤ maxFindMatchCount) :
    (visit (MatchTally.onMatch rowCount) hits tally).sortedRows = tally.sortedRows ++
      hits.map Prod.fst ∧
      (visit (MatchTally.onMatch rowCount) hits tally).totalMatches = tally.totalMatches +
        hits.length ∧
      (visit (MatchTally.onMatch rowCount) hits tally).scanExhausted = tally.scanExhausted := by
  induction hits generalizing tally with
  | nil => exact ⟨(List.append_nil _).symm, rfl, rfl⟩
  | cons hit rest ih =>
    rw [List.length_cons] at few
    obtain ⟨rows, total, exhausted⟩ :=
      MatchTally.tick_eq { tally with totalMatches := tally.totalMatches + 1 } rowCount hit.1
    -- Under the cap a hit adds its row and goes on.
    let ticked := MatchTally.tick { tally with totalMatches := tally.totalMatches + 1 }
      rowCount hit.1
    let next : MatchTally := { ticked with sortedRows := ticked.sortedRows ++ [hit.1] }
    have nextRows : next.sortedRows = tally.sortedRows ++ [hit.1] := congrArg (· ++ [hit.1]) rows
    have nextTotal : next.totalMatches = tally.totalMatches + 1 := total
    have goesOn : MatchTally.onMatch rowCount tally hit = (next, true) := by
      have room : ticked.sortedRows.length < maxFindMatchCount := by
        rw [show ticked.sortedRows = tally.sortedRows from rows]
        omega
      -- The total is not above the cap, so the walk does not end here.
      have under : ¬maxFindMatchCount < next.totalMatches := by omega
      unfold MatchTally.onMatch
      simp only [ticked] at room
      simp only [if_pos room]
      rw [if_neg fun ends => under ends.1]
    obtain ⟨allRows, allTotal, allExhausted⟩ := ih next
      (by rw [nextRows, nextTotal, List.length_append, List.length_singleton, listed])
      (by rw [nextRows, List.length_append, List.length_singleton]; omega)
    rw [visit, goesOn]
    dsimp only
    rw [if_pos rfl, allRows, allTotal, allExhausted, nextRows, nextTotal, List.map_cons,
      List.append_assoc,
      List.singleton_append, List.length_cons]
    exact ⟨rfl, Nat.add_right_comm _ _ _, exhausted⟩

/-- The walk from the first cell comes to the matching rows. -/
theorem walk_rows (view : FindView) (query : FindQuery) :
    ((List.range' 0 (view.rowCount - 0)).filterMap fun distance =>
      view.scanRow query 0 (view.rowAt true 0 distance)).map Prod.fst =
      view.matchingRows query := by
  rw [Nat.sub_zero, ← List.range_eq_range', matchingRows, List.map_filterMap,
    ← List.filterMap_eq_filter]
  refine List.filterMap_congr fun row listed => ?_
  -- From the first row on, the row at a distance is the one of that number.
  have here : view.rowAt true 0 row = row := by
    rw [rowAt, if_pos rfl, Nat.zero_add, if_pos (List.mem_range.mp listed)]
  rw [here]
  have matches_ : (view.scanRow query 0 row).isSome = view.rowMatches query row := scanRow_isSome 0
  cases hit : view.scanRow query 0 row with
  | none =>
    rw [hit, Option.isSome_none] at matches_
    rw [Option.map_none, Option.guard_eq_none_iff.mpr (by rw [← matches_])]
  | some index =>
    rw [hit, Option.isSome_some] at matches_
    rw [Option.map_some, scanRow_row hit, Option.guard_eq_some_iff.mpr ⟨rfl, matches_.symm⟩]

/-- Ascending rows are sorted already. -/
theorem defensivelySorted_of_ascending {rows : List Nat} (ascends : rows.Pairwise (· < ·)) :
    defensivelySorted rows = rows := by
  have sorted : rows.Pairwise (· ≤ ·) := ascends.imp Nat.le_of_lt
  have apart : rows.IsChain (· ≠ ·) := (ascends.imp Nat.ne_of_lt).isChain
  rw [defensivelySorted, if_pos sorted, if_pos apart]

/-- Up to the cap, the cache has all matching rows. -/
theorem buildMatchCache_eq (view : FindView) (query : FindQuery) (bucketCount : Nat)
    (few : (view.matchingRows query).length ≤ maxFindMatchCount) :
    (view.buildMatchCache query bucketCount).sortedRows = view.matchingRows query ∧
      (view.buildMatchCache query bucketCount).totalMatches = (view.matchingRows query).length ∧
      (view.buildMatchCache query bucketCount).overflowed = false := by
  -- The walk starts at the first cell, and lists the rows in their order.
  have walked := walk_rows view query
  obtain ⟨rows, total, exhausted⟩ := visit_onMatch view.rowCount
    ((List.range' 0 (view.rowCount - 0)).filterMap fun distance =>
      view.scanRow query 0 (view.rowAt true 0 distance))
    ⟨[], List.replicate bucketCount 0, 0, 0, true⟩ rfl
    (by rw [← List.length_map (f := Prod.fst), walked]; simpa using few)
  rw [walked, List.nil_append] at rows
  rw [← List.length_map (f := Prod.fst), walked, Nat.zero_add] at total
  unfold buildMatchCache forEachMatchingRow
  rw [scanRows_wrap]
  dsimp only
  rw [rows, total, exhausted, defensivelySorted_of_ascending (view.pairwise_matchingRows query)]
  exact ⟨rfl, rfl, by simpa using few⟩

end Counting

end FindView

/-- In ascending rows the binary search finds the place of a row. -/
theorem lowerBound_ascending {rows : List Nat} (ascends : rows.Pairwise (· < ·)) {place row : Nat}
    (found : rows[place]? = some row) :
    lowerBound (· < row) rows = place := by
  obtain ⟨inside, rfl⟩ := List.getElem?_eq_some_iff.mp found
  have rises := List.pairwise_iff_getElem.mp ascends
  -- The rows before the place are less, and those from it on are not.
  have parted : lowerBound (· < rows[place]) (rows.take place ++ rows.drop place) =
      (rows.take place).length := lowerBound_append
    (fun entry listed => by
      obtain ⟨other, near, rfl⟩ := List.mem_take_iff_getElem.mp listed
      exact decide_eq_true (rises other place (by omega) inside (by omega)))
    (fun entry listed => by
      obtain ⟨other, near, rfl⟩ := List.mem_drop_iff_getElem.mp listed
      refine decide_eq_false (Nat.not_lt.mpr ?_)
      rcases Nat.eq_zero_or_pos other with rfl | behind
      · exact le_of_eq (by simp)
      · exact Nat.le_of_lt (rises place (place + other) inside (by omega) (by omega)))
  rwa [List.take_append_drop, List.length_take_of_le (Nat.le_of_lt inside)] at parted

/-- What happens to find while the rows of the table stay as they are. -/
inductive FindEvent where
  | find (query : FindQuery) (next : Bool)
  | requestMatchCount (query : FindQuery)
  | cellChosen (current : Option (Nat × Nat)) (selectedRows : List Nat)
  | barShown (visible : Bool)
  | bucketsChanged (bucketCount : Nat)
  | cacheInvalidated

namespace FindState

variable {view : FindView} {state : FindState} {query : FindQuery} {next : Bool}
    {place row column : Nat}

/-- Before the first search. -/
def opened : FindState := ⟨none, [], none, .blank, false, 0⟩

/-- `PushFindMatchesToOverviewRail`: a cache for another number of buckets is made again. -/
def pushFindMatches (view : FindView) (state : FindState) : FindState :=
  match state.findMatchCache with
  | none => state
  | some cache =>
    if state.barVisible = false ∨ state.bucketCount = 0 ∨
      cache.bucketCounts.length = state.bucketCount then state
    else if cache.query.text.chars = [] then state
    else FindState.updateFindMatchCount view { state with findMatchCache := none } cache.query

/-- One event. -/
def handle (view : FindView) (state : FindState) : FindEvent → FindState
  | .find query next => state.find view query next
  | .requestMatchCount query => state.updateFindMatchCount view query
  | .cellChosen current selectedRows => { state with current, selectedRows }
  | .barShown visible => { state with barVisible := visible }
  | .bucketsChanged bucketCount => pushFindMatches view { state with bucketCount }
  | .cacheInvalidated => { state with findMatchCache := none }

/-- The state after some events. -/
def run (view : FindView) (events : List FindEvent) : FindState := events.foldl (handle view) opened

/-- The row of the current cell. -/
def currentRow (state : FindState) : Option Nat := state.current.map Prod.fst

section Cache

/-- A cache comes from a walk over the rows that are there. -/
def CacheFits (view : FindView) (state : FindState) : Prop :=
  ∀ cache, state.findMatchCache = some cache →
    ∃ bucketCount, cache = view.buildMatchCache cache.query bucketCount

/-- Where there are cells, the counter shows a cache of the rows. -/
theorem updateFindMatchCount_eq (fits : CacheFits view state) (visible : state.barVisible = true)
    (some_ : query.text.chars ≠ [])
    (cells : ¬(view.rowCount = 0 ∨ view.columnCount = 0)) :
    ∃ bucketCount, state.updateFindMatchCount view query = state.showCache
      (view.buildMatchCache query bucketCount) := by
  rw [updateFindMatchCount, if_neg (by rw [visible]; exact Bool.noConfusion), if_neg some_]
  -- A cache for the query is reused; it was built with some bucket count.
  cases held : state.findMatchCache with
  | none =>
    dsimp only
    exact ⟨state.bucketCount, if_neg cells⟩
  | some cache =>
    dsimp only
    by_cases hit : cache.query = query
    · obtain ⟨bucketCount, made⟩ := fits cache held
      rw [hit] at made
      exact ⟨bucketCount, by rw [if_pos hit, made]⟩
    · exact ⟨state.bucketCount, by rw [if_neg hit, if_neg cells]⟩

/-- Without matching rows there is nothing to count. -/
theorem updateFindMatchCount_nothing (fits : CacheFits view state)
    (visible : state.barVisible = true) (some_ : query.text.chars ≠ [])
    (none_ : view.matchingRows query = []) :
    (state.updateFindMatchCount view query).label = .blank := by
  have few : (view.matchingRows query).length ≤ maxFindMatchCount := by
    rw [none_]
    exact Nat.zero_le _
  have empty (bucketCount : Nat) :
      (state.showCache (view.buildMatchCache query bucketCount)).label = .blank := by
    obtain ⟨-, total, -⟩ := view.buildMatchCache_eq query bucketCount few
    rw [none_, List.length_nil] at total
    rw [showCache, setMatchInfo, if_pos total]
  -- Without cells the label is blanked, and with cells the cache is empty.
  by_cases cells : view.rowCount = 0 ∨ view.columnCount = 0
  · rw [updateFindMatchCount, if_neg (by rw [visible]; exact Bool.noConfusion), if_neg some_]
    cases held : state.findMatchCache with
    | none =>
      dsimp only
      rw [if_pos cells]
      rfl
    | some cache =>
      dsimp only
      by_cases hit : cache.query = query
      · obtain ⟨bucketCount, made⟩ := fits cache held
        rw [if_pos hit, made, hit]
        exact empty bucketCount
      · rw [if_neg hit, if_pos cells]
        rfl
  · obtain ⟨bucketCount, shown⟩ := updateFindMatchCount_eq fits visible some_ cells
    rw [shown]
    exact empty bucketCount

/-- The counter leaves a cache of the rows. -/
theorem CacheFits.updateFindMatchCount (fits : CacheFits view state) (query : FindQuery) :
    CacheFits view (state.updateFindMatchCount view query) := by
  -- A cache that is made now is of this view and query.
  have made (bucketCount : Nat) :
      CacheFits view (state.showCache (view.buildMatchCache query bucketCount)) := by
    rintro cache ⟨rfl⟩
    exact ⟨bucketCount, rfl⟩
  unfold FindState.updateFindMatchCount
  -- A hidden bar asks for nothing.
  by_cases hidden : state.barVisible = false
  · rwa [if_pos hidden]
  rw [if_neg hidden]
  by_cases none_ : query.text.chars = []
  · rw [if_pos none_]
    rintro cache ⟨⟩
  rw [if_neg none_]
  -- The cache is made, kept, or dropped as too old.
  cases held : state.findMatchCache with
  | none =>
    dsimp only
    split
    · rintro cache ⟨⟩
    · exact made _
  | some cache =>
    dsimp only
    split
    · rintro other ⟨rfl⟩
      exact fits cache held
    · split
      · rintro cache ⟨⟩
      · exact made _

/-- A search leaves a cache of the rows. -/
theorem CacheFits.find (fits : CacheFits view state) (query : FindQuery) (next : Bool) :
    CacheFits view (state.find view query next) := by
  have moved (found : Option (Nat × Nat)) : CacheFits view (state.selectMatch found) := by
    cases found <;> exact fits
  -- A search changes the cache only by counting.
  have counted (found : Option (Nat × Nat)) : CacheFits view
      (if (state.selectMatch found).barVisible then (state.selectMatch found).updateFindMatchCount
        view query
        else state.selectMatch found) := by
    split
    · exact (moved found).updateFindMatchCount query
    · exact moved found
  unfold FindState.find
  split
  · exact fits
  · exact counted _

/-- Another number of buckets leaves a cache of the rows. -/
theorem CacheFits.pushFindMatches (fits : CacheFits view state) :
    CacheFits view (pushFindMatches view state) := by
  -- The cache is dropped before it is made again.
  have emptied : CacheFits view { state with findMatchCache := none } := fun cache none_ => by
    cases none_
  unfold FindState.pushFindMatches
  split
  · exact fits
  · rename_i cache held
    split
    · exact fits
    · split
      · exact fits
      · exact emptied.updateFindMatchCount cache.query

/-- Every event leaves a cache of the rows. -/
theorem CacheFits.handle (fits : CacheFits view state) (event : FindEvent) :
    CacheFits view (state.handle view event) := by
  -- Only a search fills the cache, and it fills it for the view it searched.
  cases event with
  | find query next => exact fits.find query next
  | requestMatchCount query => exact fits.updateFindMatchCount query
  | cellChosen current selectedRows => exact fits
  | barShown visible => exact fits
  | bucketsChanged bucketCount => exact CacheFits.pushFindMatches fits
  | cacheInvalidated => rintro cache ⟨⟩

/-- In every state that events lead to the cache is one of the rows. -/
theorem run_cacheFits (view : FindView) (events : List FindEvent) :
    CacheFits view (run view events) := by
  -- The induction is on the events, from any state with such a cache.
  have onward (state : FindState) (fits : CacheFits view state) :
      CacheFits view (events.foldl (handle view) state) := by
    induction events generalizing state with
    | nil => exact fits
    | cons event rest ih => exact ih _ (fits.handle event)
  exact onward opened fun cache none_ => by cases none_

end Cache

section Label

/-- At a matching row the counter shows its place, from one on. -/
theorem IsAt.updateFindMatchCount_label (isAt : IsAt view query place state)
    (fits : CacheFits view state)
    (visible : state.barVisible = true) (some_ : query.text.chars ≠ [])
    (few : (view.matchingRows query).length ≤ maxFindMatchCount) :
    (state.updateFindMatchCount view query).label = .oneOf (place + 1)
      (view.matchingRows query).length false := by
  obtain ⟨row, column, found, held, -⟩ := isAt
  obtain ⟨inside, matches_⟩ := FindView.mem_matchingRows.mp (List.mem_of_getElem? found)
  have cells : ¬(view.rowCount = 0 ∨ view.columnCount = 0) := by
    rintro (none_ | none_)
    · omega
    · rw [FindView.rowMatches, none_] at matches_
      cases matches_
  obtain ⟨bucketCount, shown⟩ := updateFindMatchCount_eq fits visible some_ cells
  obtain ⟨rows, total, exact_⟩ := view.buildMatchCache_eq query bucketCount few
  have positive : 0 < (view.matchingRows query).length :=
    Nat.zero_lt_of_lt (List.getElem?_eq_some_iff.mp found).1
  -- The binary search finds the current row at its place.
  have current : state.currentOneBased (view.buildMatchCache query bucketCount) = place + 1 := by
    rw [currentOneBased, total, if_pos positive, held]
    dsimp only
    rw [rows, lowerBound_ascending (view.pairwise_matchingRows query) found, if_pos found]
  rw [shown, showCache, setMatchInfo, current, total, exact_, if_neg (by omega),
    if_pos (Nat.succ_pos place)]

/-- A search shows the place that it ends at. -/
theorem IsAt.find_label (isAt : IsAt view query place (state.find view query next))
    (fits : CacheFits view state)
    (visible : state.barVisible = true) (some_ : query.text.chars ≠ [])
    (held : state.current = some (row, column))
    (few : (view.matchingRows query).length ≤ maxFindMatchCount) :
    (state.find view query next).label = .oneOf (place + 1)
      (view.matchingRows query).length false := by
  -- The move to the match leaves the cache and the bar alone.
  have moved (found : Option (Nat × Nat)) : CacheFits view (state.selectMatch found) ∧
      (state.selectMatch found).barVisible = true := by
    cases found <;> exact ⟨fits, visible⟩
  obtain ⟨movedFits, movedVisible⟩ := moved (firstMatch view state query next (row, column))
  have counts := find_eq view next some_ held
  rw [if_pos movedVisible] at counts
  obtain ⟨current, selected⟩ :=
    updateFindMatchCount_current view
      (state.selectMatch (firstMatch view state query next (row, column))) query
  obtain ⟨target, targetColumn, found, targetHeld, targetSelected⟩ := isAt
  rw [counts, current] at targetHeld
  rw [counts, selected] at targetSelected
  rw [counts]
  exact IsAt.updateFindMatchCount_label ⟨target, targetColumn, found, targetHeld,
    targetSelected⟩ movedFits movedVisible some_ few

/-- A search without matching rows shows nothing. -/
theorem find_label_nothing (fits : CacheFits view state) (visible : state.barVisible = true)
    (some_ : query.text.chars ≠ [])
    (held : state.current = some (row, column)) (none_ : view.matchingRows query = []) :
    (state.find view query next).label = .blank := by
  have moved (found : Option (Nat × Nat)) : CacheFits view (state.selectMatch found) ∧
      (state.selectMatch found).barVisible = true := by
    cases found <;> exact ⟨fits, visible⟩
  obtain ⟨movedFits, movedVisible⟩ := moved (firstMatch view state query next (row, column))
  rw [find_eq view next some_ held, if_pos movedVisible]
  exact updateFindMatchCount_nothing movedFits movedVisible some_ none_

end Label

section Runs

/-- A further event is handled after the others. -/
theorem run_append (view : FindView) (events more : List FindEvent) :
    run view (events ++ more) = more.foldl (handle view) (run view events) :=
  List.foldl_append

/-- Repeated searches are steps one after the other. -/
theorem run_replicate (view : FindView) (events : List FindEvent) (query : FindQuery)
    (turns : Nat) :
    run view (events ++ List.replicate turns (.find query true)) =
      (fun state => state.find view query true)^[turns] (run view events) := by
  induction turns with
  | zero => rw [List.replicate_zero, List.append_nil, Function.iterate_zero, id]
  | succ turns ih =>
    -- The last of the searches is taken off.
    rw [List.replicate_succ', ← List.append_assoc, run_append, ih, Function.iterate_succ_apply',
      List.foldl_cons, List.foldl_nil, handle]

/-- From every state that events lead to, a search moves to the nearest matching row in its
direction, repeated searches go round all of them, a search back undoes one, and the counter shows
where they are. -/
theorem run_stepsThroughMatches (view : FindView) (events : List FindEvent)
    (some_ : query.text.chars ≠ [])
    (held : (run view events).current = some (row, column)) (inside : row < view.rowCount) :
    (∀ next,
      (view.matchingRows query = [] →
        (run view (events ++ [FindEvent.find query next])).current = (run view events).current ∧
          (run view (events ++ [FindEvent.find query next])).selectedRows =
            (run view events).selectedRows) ∧
      (view.matchingRows query ≠ [] →
        ∃ target, (run view (events ++ [FindEvent.find query next])).currentRow = some target ∧
          (run view (events ++ [FindEvent.find query next])).selectedRows.contains target = true ∧
          Finds (view.matchingRows query) next ((run view events).selectedRows.contains row)
            row target)) ∧
    (view.matchingRows query ≠ [] →
      ∃ first < (view.matchingRows query).length, ∀ turn,
        (run view (events ++ List.replicate (turn + 1) (FindEvent.find query true))).currentRow =
          (view.matchingRows query)[(first + turn) % (view.matchingRows query).length]?) ∧
    (row ∈ view.matchingRows query → (run view events).selectedRows.contains row = true → ∀ next,
      (run view (events ++ [FindEvent.find query next, FindEvent.find query !next])).currentRow =
        some row) ∧
    ((view.matchingRows query).length ≤ maxFindMatchCount → (run view events).barVisible = true →
      ∀ next,
      (view.matchingRows query = [] →
        (run view (events ++ [FindEvent.find query next])).label = .blank) ∧
      (view.matchingRows query ≠ [] →
        ∃ place, (run view (events ++ [FindEvent.find query next])).currentRow =
          (view.matchingRows query)[place]? ∧
          place < (view.matchingRows query).length ∧
          (run view (events ++ [FindEvent.find query next])).label = .oneOf (place + 1)
            (view.matchingRows query).length false)) := by
  have fits := run_cacheFits view events
  have one (next : Bool) : run view (events ++ [FindEvent.find query next]) =
      (run view events).find view query next := by
    rw [run_append, List.foldl_cons, List.foldl_nil, handle]
  have two (next : Bool) :
    run view (events ++ [FindEvent.find query next, FindEvent.find query !next]) =
      ((run view events).find view query next).find view query !next := by
    rw [run_append, List.foldl_cons, List.foldl_cons, List.foldl_nil, handle, handle]
  -- Each part is about one search from the state that the events lead to, or about
  -- steps from a place.
  refine ⟨fun next => ⟨fun none_ => ?_, fun matching => ?_⟩, fun matching => ?_,
    fun listed selected next => ?_,
    fun few visible next => ⟨fun none_ => ?_, fun matching => ?_⟩⟩
  · rw [one]
    exact find_nothing some_ held inside none_
  · rw [one]
    obtain ⟨target, targetColumn, current, selected, finds⟩ :=
      find_finds next some_ held inside matching
    exact ⟨target, by rw [currentRow, current]; rfl, selected, finds⟩
  · obtain ⟨first, near, isAt⟩ := exists_isAt_find some_ held inside matching true
    refine ⟨first, near, fun turn => ?_⟩
    obtain ⟨target, targetColumn, found, current, -⟩ := isAt.iterate_find some_ turn
    rw [run_replicate, Function.iterate_succ_apply, currentRow, current, found]
    rfl
  · obtain ⟨place, found⟩ := List.getElem?_of_mem listed
    have near := (List.getElem?_eq_some_iff.mp found).1
    have isAt : IsAt view query place (run view events) := ⟨row, column, found, held, selected⟩
    obtain ⟨target, targetColumn, back, current, -⟩ := (isAt.find some_ next).find some_ !next
    rw [neighbour_neighbour next near, found] at back
    rw [two, currentRow, current, Option.map_some, back]
  · rw [one]
    exact find_label_nothing fits visible some_ held none_
  · obtain ⟨place, near, isAt⟩ := exists_isAt_find some_ held inside matching next
    rw [one]
    refine ⟨place, ?_, near, isAt.find_label fits visible some_ held few⟩
    obtain ⟨target, targetColumn, found, current, -⟩ := isAt
    rw [currentRow, current, found]
    rfl

/-- Of three rows the first and the last one match; a search from the first one ends in a row to
find, and another one leads on and round. -/
theorem run_stepsThroughMatches_ends :
    ∃ view : FindView, ∃ query : FindQuery, view.matchingRows query = [0, 2] ∧
      (run view [FindEvent.cellChosen (some (0, 0)) [0]]).current = some (0, 0) ∧
      (∃ target, (run view ([FindEvent.cellChosen (some (0, 0)) [0]] ++
        [FindEvent.find query true])).currentRow = some target ∧
        Finds [0, 2] true true 0 target) ∧
      ∃ first < 2, ∀ turn, (run view ([FindEvent.cellChosen (some (0, 0)) [0]] ++ List.replicate
        (turn + 1) (FindEvent.find query true))).currentRow =
        [0, 2][(first + turn) % 2]? := by
  -- Three rows, of which the first and the last match.
  let view : FindView := ⟨3, 1, fun _ => false, fun _ row _ => row != 1⟩
  let query : FindQuery := ⟨Utf16Text.ofString "a", false, false⟩
  have matching : view.matchingRows query = [0, 2] := by decide
  obtain ⟨moves, rounds, -⟩ :=
    run_stepsThroughMatches view [FindEvent.cellChosen (some (0, 0)) [0]]
      (show query.text.chars ≠ [] by decide) rfl
    (show 0 < 3 by decide)
  rw [matching] at rounds
  obtain ⟨target, current, -, finds⟩ :=
    (moves true).2 (by rw [matching]; exact List.cons_ne_nil _ _)
  rw [matching] at finds
  exact ⟨view, query, matching, rfl, ⟨target, current, finds⟩, rounds (List.cons_ne_nil _ _)⟩

end Runs

end FindState

end Loglib
