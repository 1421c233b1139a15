import Loglib.App.FindRecords

/-! Steps of find: where the scan stops, that the steps go round all matching rows, and what the
match counter shows. -/

namespace Loglib

namespace FindView

variable {view : FindView} {query : FindQuery} {start : Nat × Nat} {forward : Bool}
    {startRow row skip : Nat}

/-- A row that has a matching cell in a column that is shown. -/
def rowMatches (view : FindView) (query : FindQuery) (row : Nat) : Bool :=
  (List.range view.columnCount).any fun column =>
    !view.isColumnHidden column && view.probeCell query row column

/-- The matching rows, in ascending order. -/
def matchingRows (view : FindView) (query : FindQuery) : List Nat :=
  (List.range view.rowCount).filter (view.rowMatches query)

/-- The rows of the list are the matching rows of the view. -/
theorem mem_matchingRows :
    row ∈ view.matchingRows query ↔ row < view.rowCount ∧ view.rowMatches query row = true := by
  rw [matchingRows, List.mem_filter, List.mem_range]

/-- The matching rows ascend. -/
theorem pairwise_matchingRows (view : FindView) (query : FindQuery) :
    (view.matchingRows query).Pairwise (· < ·) :=
  List.pairwise_lt_range.filter _

section Rows

/-- From any column on and round, every column is passed. -/
theorem mem_columns_round {columnCount startColumn column : Nat} :
    column ∈ (List.range columnCount).map (fun offset => (startColumn + offset) % columnCount) ↔
      column < columnCount := by
  rw [List.mem_map]
  constructor
  · rintro ⟨offset, listed, rfl⟩
    exact Nat.mod_lt _ (Nat.zero_lt_of_lt (List.mem_range.mp listed))
  · intro inside
    -- The offset is the way from the first column to the one sought, round the end if
    -- it lies before.
    have first : startColumn % columnCount < columnCount := Nat.mod_lt _ (Nat.zero_lt_of_lt inside)
    by_cases ahead : startColumn % columnCount ≤ column
    · refine ⟨column - startColumn % columnCount, List.mem_range.mpr (by omega), ?_⟩
      rw [Nat.add_mod, Nat.mod_eq_of_lt (show column - startColumn % columnCount <
        columnCount by omega),
        Nat.add_sub_cancel' ahead, Nat.mod_eq_of_lt inside]
    · refine ⟨column + columnCount - startColumn % columnCount, List.mem_range.mpr (by omega), ?_⟩
      rw [Nat.add_mod, Nat.mod_eq_of_lt (show column + columnCount - startColumn % columnCount <
        columnCount by omega),
        Nat.add_sub_cancel' (by omega), Nat.add_mod_right, Nat.mod_eq_of_lt inside]

/-- A row is hit exactly if it matches, wherever the scan of its columns starts. -/
theorem scanRow_isSome (startColumn : Nat) :
    (view.scanRow query startColumn row).isSome = view.rowMatches query row := by
  rw [scanRow, Option.isSome_map, Bool.eq_iff_iff, List.find?_isSome, rowMatches, List.any_eq_true]
  constructor
  · rintro ⟨column, listed, hit⟩
    exact ⟨column, List.mem_range.mpr (mem_columns_round.mp listed), hit⟩
  · rintro ⟨column, listed, hit⟩
    exact ⟨column, mem_columns_round.mpr (List.mem_range.mp listed), hit⟩

/-- A hit is in its row. -/
theorem scanRow_row {startColumn : Nat} {index : Nat × Nat}
    (hit : view.scanRow query startColumn row = some index) :
    index.1 = row := by
  obtain ⟨column, -, rfl⟩ := Option.map_eq_some_iff.mp hit
  rfl

/-- The row at a distance from the start, round the ends. -/
def rowAt (view : FindView) (forward : Bool) (startRow distance : Nat) : Nat :=
  if forward then if startRow + distance < view.rowCount then startRow + distance
    else startRow + distance - view.rowCount
  else if distance ≤ startRow then startRow - distance else startRow + view.rowCount - distance

/-- With wrapping the scan always finds a row. -/
theorem actualRow_wrap (view : FindView) (forward : Bool) (startRow distance : Nat) :
    view.actualRow true forward startRow distance = some
      (view.rowAt forward startRow distance) := by
  unfold actualRow rowAt
  cases forward <;> simp only [if_true, Bool.false_eq_true, if_false] <;> split <;> rfl

/-- A callback over hits, until it does not want to go on. -/
def visit {σ : Type*} (onMatch : σ → Nat × Nat → σ × Bool) : List (Nat × Nat) → σ → σ
  | [], state => state
  | index :: rest, state =>
    let (state, goesOn) := onMatch state index
    if goesOn then visit onMatch rest state else state

/-- The loop visits the hits of its rows. -/
theorem scanRows_wrap {σ : Type*} (onMatch : σ → Nat × Nat → σ × Bool) (distances : List Nat)
    (state : σ) :
    view.scanRows query true forward start onMatch distances state =
      visit onMatch (distances.filterMap fun distance =>
        view.scanRow query start.2 (view.rowAt forward start.1 distance)) state := by
  induction distances generalizing state with
  | nil => rfl
  | cons distance rest ih =>
    rw [scanRows, actualRow_wrap, List.filterMap_cons]
    dsimp only
    cases view.scanRow query start.2 (view.rowAt forward start.1 distance) with
    -- A row without a hit is no part of the hits.
    | none => exact ih state
    | some index =>
      rw [visit]
      dsimp only
      split
      · exact ih _
      · rfl

/-- A search for one hit finds the first one. -/
theorem matchRow_one (view : FindView) (query : FindQuery) (start : Nat × Nat) (forward : Bool)
    (skip : Nat) :
    (view.matchRow query 1 start true forward skip).head? =
      (List.range' skip (view.rowCount - skip)).findSome? fun distance =>
        view.scanRow query start.2 (view.rowAt forward start.1 distance) := by
  rw [matchRow, forEachMatchingRow, scanRows_wrap, ← List.head?_filterMap]
  cases (List.range' skip (view.rowCount - skip)).filterMap fun distance =>
    view.scanRow query start.2 (view.rowAt forward start.1 distance) <;> rfl

end Rows

end FindView

/-- The first of some numbers with an answer is behind numbers without one. -/
theorem findSome?_range'_eq_some {α : Type*} {answer : Nat → Option α} {first count : Nat}
    {found : α}
    (held : (List.range' first count).findSome? answer = some found) :
    ∃ place, first ≤ place ∧ place < first + count ∧ answer place = some found ∧
      ∀ other, first ≤ other → other < place → answer other = none := by
  induction count generalizing first with
  | zero => cases held
  | succ count ih =>
    rw [List.range'_succ, List.findSome?_cons] at held
    -- The first place answers, or the answer lies further on.
    cases here : answer first with
    | some other =>
      rw [here] at held
      exact ⟨first, le_rfl, by omega, here.trans held, fun other low high => by omega⟩
    | none =>
      rw [here] at held
      obtain ⟨place, low, high, answered, before⟩ := ih held
      refine ⟨place, by omega, by omega, answered, fun other otherLow otherHigh => ?_⟩
      rcases Nat.eq_or_lt_of_le otherLow with rfl | later
      · exact here
      · exact before other later otherHigh

/-- A row comes before another in the direction of the search. -/
def Precedes (next : Bool) (first second : Nat) : Prop := if next then first < second
    else second < first

/-- A row that the search may stop at before it wraps: one behind the current row, or that row if it
is not selected. -/
def FindCandidate (next selected : Bool) (row other : Nat) : Prop :=
  Precedes next row other ∨ (selected = false ∧ other = row)

/-- The row that a search is to find: the first candidate among the matching rows, and the first
matching row of all if no candidate matches. -/
def Finds (matching : List Nat) (next selected : Bool) (row target : Nat) : Prop :=
  target ∈ matching ∧
    ((FindCandidate next selected row target ∧ ∀ other ∈ matching,
      FindCandidate next selected row other → ¬Precedes next other target) ∨
      ((∀ other ∈ matching, ¬FindCandidate next selected row other) ∧ ∀ other ∈ matching,
        ¬Precedes next other target))

section Finding

variable {view : FindView} {query : FindQuery} {matching : List Nat} {next selected : Bool}
    {row target : Nat}

/-- Of two rows that do not come before each other there is only one. -/
theorem eq_of_not_precedes {first second : Nat} (one : ¬Precedes next first second)
    (two : ¬Precedes next second first) :
    first = second := by
  unfold Precedes at one two
  cases next with
  | true => simp only [if_true] at one two; omega
  | false => simp only [Bool.false_eq_true, if_false] at one two; omega

/-- Of two rows at most one comes before the other. -/
theorem Precedes.asymm {first second : Nat} (one : Precedes next first second) :
    ¬Precedes next second first := by
  unfold Precedes at one ⊢
  cases next with
  | true => exact Nat.lt_asymm one
  | false => exact Nat.lt_asymm one

/-- A candidate does not come before the current row. -/
theorem FindCandidate.not_precedes {other : Nat}
    (candidate : FindCandidate next selected row other) : ¬Precedes next other row := by
  rcases candidate with ahead | ⟨-, rfl⟩
  · exact ahead.asymm
  · exact fun before => before.asymm before

/-- A selected row is no candidate. -/
theorem not_candidate_selected : ¬FindCandidate next true row row := by
  rintro (ahead | ⟨none_, -⟩)
  · exact ahead.asymm ahead
  · cases none_

/-- There is only one row to find. -/
theorem Finds.unique {other : Nat} (one : Finds matching next selected row target)
    (two : Finds matching next selected row other) :
    target = other := by
  -- Both are the first candidates, or both are the first rows after the wrap.
  obtain ⟨listed, ⟨candidate, first⟩ | ⟨none_, first⟩⟩ := one
  · obtain ⟨otherListed, ⟨otherCandidate, otherFirst⟩ | ⟨otherNone, -⟩⟩ := two
    · exact eq_of_not_precedes (otherFirst target listed candidate)
        (first other otherListed otherCandidate)
    · exact absurd candidate (otherNone target listed)
  · obtain ⟨otherListed, ⟨otherCandidate, -⟩ | ⟨-, otherFirst⟩⟩ := two
    · exact absurd otherCandidate (none_ other otherListed)
    · exact eq_of_not_precedes (otherFirst target listed) (first other otherListed)

/-- How far a row is from the start of the search. -/
def distanceTo (view : FindView) (next : Bool) (startRow row : Nat) : Nat :=
  if next then if startRow ≤ row then row - startRow else row + view.rowCount - startRow
  else if row ≤ startRow then startRow - row else startRow + view.rowCount - row

/-- The distance of a row leads to it. -/
theorem rowAt_distanceTo (inside : row < view.rowCount) {other : Nat}
    (otherInside : other < view.rowCount) :
    view.rowAt next row (distanceTo view next row other) = other ∧
      distanceTo view next row other < view.rowCount := by
  unfold FindView.rowAt distanceTo
  split <;> split <;> split <;> omega

/-- Every distance leads to a row. -/
theorem rowAt_lt (inside : row < view.rowCount) {distance : Nat} (near : distance < view.rowCount) :
    view.rowAt next row distance < view.rowCount := by
  unfold FindView.rowAt
  split <;> split <;> omega

/-- A distance is the one of the row that it leads to. -/
theorem distanceTo_rowAt (inside : row < view.rowCount) {distance : Nat}
    (near : distance < view.rowCount) :
    distanceTo view next row (view.rowAt next row distance) = distance := by
  unfold FindView.rowAt distanceTo
  split <;> split <;> split <;> omega

/-- The start is at no distance. -/
theorem distanceTo_self (view : FindView) (next : Bool) (row : Nat) :
    distanceTo view next row row = 0 := by
  unfold distanceTo
  split <;> rw [if_pos le_rfl, Nat.sub_self]

/-- Only the start is at no distance. -/
theorem distanceTo_eq_zero (inside : row < view.rowCount) {other : Nat}
    (otherInside : other < view.rowCount)
    (none_ : distanceTo view next row other = 0) : other = row := by
  unfold distanceTo at none_
  split at none_ <;> split at none_ <;> omega

/-- The rows from the start on are nearer than those before it, and of either kind the ones that the
search comes to first. -/
theorem distanceTo_lt (inside : row < view.rowCount) {other : Nat}
    (otherInside : other < view.rowCount)
    (targetInside : target < view.rowCount)
    (sooner : (¬Precedes next other row ∧ Precedes next target row) ∨
      (Precedes next other target ∧ (Precedes next other row → Precedes next target row))) :
    distanceTo view next row other < distanceTo view next row target := by
  unfold distanceTo
  unfold Precedes at sooner
  -- Downwards the rows behind come first and the ones in front after the wrap; upwards the other
  -- way round.
  cases next with
  | true =>
    simp only [if_true] at sooner ⊢
    split <;> split <;> omega
  | false =>
    simp only [Bool.false_eq_true, if_false] at sooner ⊢
    split <;> split <;> omega

/-- A matching row that the scan does not hit at its distance is the row itself, skipped because it
is selected. -/
theorem only_of_missed (next : Bool) {other : Nat} (inside : row < view.rowCount)
    (listed : other ∈ view.matchingRows query)
    (missed : (selected = true → 0 < distanceTo view next row other) →
    distanceTo view next row other < view.rowCount →
      view.rowMatches query (view.rowAt next row (distanceTo view next row other)) = false) :
    other = row ∧ selected = true := by
  obtain ⟨otherInside, matches_⟩ := FindView.mem_matchingRows.mp listed
  obtain ⟨leads, near⟩ := rowAt_distanceTo inside otherInside
  by_contra differs
  -- Any other row, and an unselected one, is at a distance that the scan has not skipped.
  have positive : selected = true → 0 < distanceTo view next row other := fun chosen =>
    Nat.pos_of_ne_zero fun none_ => differs ⟨distanceTo_eq_zero inside otherInside none_, chosen⟩
  have miss := missed positive near
  rw [leads, matches_] at miss
  cases miss

/-- The first hit of the scan is the row to find. -/
theorem finds_of_first (inside : row < view.rowCount) {distance : Nat}
    (near : distance < view.rowCount)
    (skipped : selected = true → 0 < distance)
    (hit : view.rowMatches query (view.rowAt next row distance) = true)
    (before : ∀ other, (selected = true → 0 < other) → other < distance →
    view.rowMatches query (view.rowAt next row other) = false) :
    Finds (view.matchingRows query) next selected row (view.rowAt next row distance) := by
  have targetInside := @rowAt_lt view next row inside distance near
  have reached := @distanceTo_rowAt view next row inside distance near
  generalize view.rowAt next row distance = target at *
  -- No matching row is nearer than the hit, but for the selected row that the scan has skipped.
  have nearest : ∀ other ∈ view.matchingRows query,
    distanceTo view next row other < distanceTo view next row target →
      other = row ∧ selected = true := fun other listed closer =>
    only_of_missed next inside listed fun positive _ => before _ positive (reached ▸ closer)
  have inRows : ∀ other ∈ view.matchingRows query, other < view.rowCount := fun other listed =>
    (FindView.mem_matchingRows.mp listed).1
  refine ⟨FindView.mem_matchingRows.mpr ⟨targetInside, hit⟩, ?_⟩
  by_cases wrapped : Precedes next target row
  · -- The scan has wrapped: a candidate, or a row before the hit, were nearer.
    refine .inr ⟨fun other listed candidate => ?_, fun other listed closer => ?_⟩
    · obtain ⟨rfl, rfl⟩ := nearest other listed
        (distanceTo_lt inside (inRows other listed) targetInside
          (.inl ⟨candidate.not_precedes, wrapped⟩))
      exact not_candidate_selected candidate
    · obtain ⟨rfl, -⟩ := nearest other listed
        (distanceTo_lt inside (inRows other listed) targetInside (.inr ⟨closer, fun _ => wrapped⟩))
      exact closer.asymm wrapped
  · -- The scan has not wrapped, so the hit is a candidate, and one before it were nearer.
    refine .inl ⟨?_, fun other listed candidate closer => ?_⟩
    · by_cases ahead : Precedes next row target
      · exact .inl ahead
      · obtain rfl := eq_of_not_precedes wrapped ahead
        refine .inr ⟨Bool.eq_false_iff.mpr fun chosen => ?_, rfl⟩
        have far := skipped chosen
        rw [← reached, distanceTo_self] at far
        exact absurd far (Nat.lt_irrefl 0)
    · obtain ⟨rfl, rfl⟩ := nearest other listed
        (distanceTo_lt inside (inRows other listed) targetInside
        (.inr ⟨closer, fun before => absurd before candidate.not_precedes⟩))
      exact not_candidate_selected candidate

end Finding

namespace FindState

variable {view : FindView} {state : FindState} {query : FindQuery} {next : Bool} {row column : Nat}

/-- The counter leaves the cell and the selection alone. -/
theorem updateFindMatchCount_current (view : FindView) (state : FindState) (query : FindQuery) :
    (state.updateFindMatchCount view query).current = state.current ∧
      (state.updateFindMatchCount view query).selectedRows = state.selectedRows := by
  unfold updateFindMatchCount
  repeat' split
  all_goals exact ⟨rfl, rfl⟩

/-- The first match from the current cell on. -/
def firstMatch (view : FindView) (state : FindState) (query : FindQuery) (next : Bool)
    (start : Nat × Nat) : Option (Nat × Nat) :=
  (view.matchRow query 1 start true next (if state.selectedRows.contains start.1 then 1
    else 0)).head?

/-- A search goes to the first match, and the counter follows while the bar is visible. -/
theorem find_eq (view : FindView) (next : Bool) (some_ : query.text.chars ≠ [])
    (held : state.current = some (row, column)) :
    state.find view query next =
      if (state.selectMatch (firstMatch view state query next (row, column))).barVisible then
        (state.selectMatch (firstMatch view state query next (row, column))).updateFindMatchCount
          view query
      else state.selectMatch (firstMatch view state query next (row, column)) := by
  rw [find, if_neg some_, findRecords, held, Option.getD_some]
  rfl

/-- A search goes to the first match. -/
theorem find_current (some_ : query.text.chars ≠ []) (held : state.current = some (row, column)) :
    (state.find view query next).current =
      (state.selectMatch (firstMatch view state query next (row, column))).current ∧
      (state.find view query next).selectedRows =
        (state.selectMatch (firstMatch view state query next (row, column))).selectedRows := by
  rw [find_eq view next some_ held]
  -- The counter does not move anything.
  by_cases visible : (state.selectMatch (firstMatch view state query next (row,
    column))).barVisible = true
  · rw [if_pos visible]
    exact updateFindMatchCount_current view _ query
  · rw [if_neg visible]
    exact ⟨rfl, rfl⟩

/-- The scan skips a selected row. -/
theorem skip_le {selected : Bool} {distance : Nat} (positive : selected = true → 0 < distance) :
    (if selected then 1 else 0) ≤ distance := by
  split
  · exact positive ‹_›
  · exact Nat.zero_le _

/-- The first match is in the row to find. -/
theorem finds_firstMatch (inside : row < view.rowCount) {found : Nat × Nat}
    (hit : firstMatch view state query next (row, column) = some found) :
    Finds (view.matchingRows query) next (state.selectedRows.contains row) row found.1 := by
  rw [firstMatch, FindView.matchRow_one] at hit
  obtain ⟨distance, low, high, answered, before⟩ := findSome?_range'_eq_some hit
  have matches_ : view.rowMatches query (view.rowAt next row distance) = true := by
    rw [← FindView.scanRow_isSome column, answered]
    rfl
  -- The hit is the first one at its distance, behind the skipped row.
  rw [FindView.scanRow_row answered]
  refine finds_of_first inside (by omega) (fun chosen => ?_) matches_ fun other positive nearer =>
    ?_
  · rw [if_pos chosen] at low
    omega
  · rw [← FindView.scanRow_isSome column, before other (skip_le positive) nearer]
    rfl

/-- Without a first match there is at most the selected row itself. -/
theorem only_of_firstMatch_none (inside : row < view.rowCount)
    (missed : firstMatch view state query next (row, column) = none) {other : Nat}
    (listed : other ∈ view.matchingRows query) :
    other = row ∧ state.selectedRows.contains row = true := by
  rw [firstMatch, FindView.matchRow_one, List.findSome?_eq_none_iff] at missed
  refine only_of_missed next inside listed fun positive near => ?_
  have skipped := skip_le positive
  rw [← FindView.scanRow_isSome column, missed _ (List.mem_range'_1.mpr ⟨skipped, by omega⟩)]
  rfl

/-- A search without matching rows changes neither the cell nor the selection. -/
theorem find_nothing (some_ : query.text.chars ≠ []) (held : state.current = some (row, column))
    (inside : row < view.rowCount)
    (none_ : view.matchingRows query = []) :
    (state.find view query next).current = state.current ∧
      (state.find view query next).selectedRows = state.selectedRows := by
  obtain ⟨current, selected⟩ := find_current some_ held
  rw [current, selected]
  -- What a search finds is among the matching rows, of which there are none.
  cases hit : firstMatch view state query next (row, column) with
  | none => exact ⟨rfl, rfl⟩
  | some found =>
    have listed := (finds_firstMatch inside hit).1
    rw [none_] at listed
    cases listed

/-- A search with matching rows ends in the row to find, which is selected. -/
theorem find_finds (next : Bool) (some_ : query.text.chars ≠ [])
    (held : state.current = some (row, column)) (inside : row < view.rowCount)
    (matching : view.matchingRows query ≠ []) :
    ∃ target targetColumn, (state.find view query next).current = some (target, targetColumn) ∧
      (state.find view query next).selectedRows.contains target = true ∧
      Finds (view.matchingRows query) next (state.selectedRows.contains row) row target := by
  obtain ⟨current, selected⟩ := find_current some_ held
  rw [current, selected]
  cases hit : firstMatch view state query next (row, column) with
  | some found => exact ⟨found.1, found.2, rfl, by simp [selectMatch], finds_firstMatch inside hit⟩
  | none =>
    -- The only matching row is the selected one, so going round leads back to it.
    obtain ⟨other, listed⟩ := List.exists_mem_of_ne_nil _ matching
    obtain ⟨rfl, chosen⟩ := only_of_firstMatch_none inside hit listed
    have only {next_ : Nat} (inMatching : next_ ∈ view.matchingRows query) : next_ = other :=
      (only_of_firstMatch_none inside hit inMatching).1
    refine ⟨other, column, held, chosen, listed,
      .inr ⟨fun another inMatching candidate => ?_, fun another inMatching => ?_⟩⟩
    · rw [only inMatching, chosen] at candidate
      exact not_candidate_selected candidate
    · rw [only inMatching]
      exact fun before => before.asymm before

end FindState

section Rounds

variable {matching : List Nat} {next : Bool} {place : Nat}

/-- The place of the neighbour among some places, round the ends. -/
def neighbour (next : Bool) (count place : Nat) : Nat := if next then (place + 1) % count
    else (place + count - 1) % count

/-- The neighbour is one of the places. -/
theorem neighbour_lt (next : Bool) {count : Nat} (inside : place < count) :
    neighbour next count place < count := by
  unfold neighbour
  split <;> exact Nat.mod_lt _ (Nat.zero_lt_of_lt inside)

/-- Beyond the last place comes the first one. -/
theorem neighbour_eq (next : Bool) {count : Nat} (inside : place < count) :
    neighbour next count place =
      if next then if place + 1 < count then place + 1 else 0
      else if place = 0 then count - 1 else place - 1 := by
  unfold neighbour
  cases next with
  | true =>
    simp only [if_true]
    split
    · exact Nat.mod_eq_of_lt ‹_›
    · -- From the last place on the next one is the first.
      have last : place + 1 = count := by omega
      rw [last, Nat.mod_self]
  | false =>
    simp only [Bool.false_eq_true, if_false]
    split
    · -- Before the first place comes the last one.
      rename_i first
      rw [first, Nat.zero_add, Nat.mod_eq_of_lt (by omega)]
    · have behind : place + count - 1 = place - 1 + count := by omega
      rw [behind, Nat.add_mod_right, Nat.mod_eq_of_lt (by omega)]

/-- The neighbour of the neighbour on the other side is the place itself. -/
theorem neighbour_neighbour (next : Bool) {count : Nat} (inside : place < count) :
    neighbour (!next) count (neighbour next count place) = place := by
  -- The place after the last is the first one, and the one before the first is the last.
  rw [neighbour_eq _ (neighbour_lt next inside), neighbour_eq next inside]
  cases next with
  | true =>
    simp only [Bool.not_true, Bool.false_eq_true, if_false, if_true]
    split <;> split <;> omega
  | false =>
    simp only [Bool.not_false, Bool.false_eq_true, if_false, if_true]
    split <;> split <;> omega

/-- Ascending rows come before each other as their places do. -/
theorem precedes_getElem (ascends : matching.Pairwise (· < ·)) {first second : Nat}
    (inFirst : first < matching.length)
    (inSecond : second < matching.length) :
    Precedes next (matching.get ⟨first, inFirst⟩) (matching.get ⟨second, inSecond⟩) ↔
      Precedes next first second := by
  have rises := List.pairwise_iff_getElem.mp ascends
  -- Ascending rows are less exactly where their places are.
  have less {low high : Nat} (inLow : low < matching.length) (inHigh : high < matching.length) :
      matching[low] < matching[high] ↔ low < high := by
    refine ⟨fun before => ?_, rises low high inLow inHigh⟩
    by_contra notBefore
    rcases Nat.eq_or_lt_of_le (Nat.le_of_not_lt notBefore) with rfl | behind
    · exact lt_irrefl _ before
    · exact absurd (rises high low inHigh inLow behind) (Nat.lt_asymm before)
  simp only [List.get_eq_getElem]
  unfold Precedes
  split
  · exact less inFirst inSecond
  · exact less inSecond inFirst

/-- From a selected matching row the row to find is its neighbour. -/
theorem finds_neighbour (ascends : matching.Pairwise (· < ·)) (inside : place < matching.length) :
    Finds matching next true (matching.get ⟨place, inside⟩)
      (matching.get ⟨neighbour next matching.length place, neighbour_lt next inside⟩) := by
  -- Candidates are told by their places.
  have candidate {other : Nat} (inOther : other < matching.length) :
      FindCandidate next true (matching.get ⟨place, inside⟩) (matching.get ⟨other, inOther⟩) ↔
        Precedes next place other := by
    unfold FindCandidate
    rw [precedes_getElem ascends]
    simp
  refine ⟨List.get_mem _ _, ?_⟩
  rw [candidate]
  have onPlaces {claim : Nat → Prop} (holds : ∀ other (inOther : other < matching.length),
    claim (matching.get ⟨other, inOther⟩)) :
      ∀ row ∈ matching, claim row := by
    intro row listed
    obtain ⟨⟨other, inOther⟩, rfl⟩ := List.mem_iff_get.mp listed
    exact holds other inOther
  -- Which case it is depends on whether the place is the last one in the direction.
  by_cases wraps : Precedes next place (neighbour next matching.length place)
  · refine .inl ⟨wraps, onPlaces fun other inOther => ?_⟩
    rw [candidate, precedes_getElem ascends]
    rw [neighbour_eq next inside] at wraps ⊢
    unfold Precedes at wraps ⊢
    cases next with
    | true => simp only [if_true] at wraps ⊢; split at wraps <;> split <;> omega
    | false =>
      simp only [Bool.false_eq_true, if_false] at wraps ⊢; split at wraps <;> split <;> omega
  · refine .inr ⟨onPlaces fun other inOther => ?_, onPlaces fun other inOther => ?_⟩
    · rw [candidate]
      rw [neighbour_eq next inside] at wraps
      unfold Precedes at wraps ⊢
      cases next with
      | true => simp only [if_true] at wraps ⊢; split at wraps <;> omega
      | false => simp only [Bool.false_eq_true, if_false] at wraps ⊢; split at wraps <;> omega
    · rw [precedes_getElem ascends]
      rw [neighbour_eq next inside] at wraps ⊢
      unfold Precedes at wraps ⊢
      cases next with
      | true => simp only [if_true] at wraps ⊢; split at wraps <;> split <;> omega
      | false =>
        simp only [Bool.false_eq_true, if_false] at wraps ⊢; split at wraps <;> split <;> omega

end Rounds

namespace FindState

variable {view : FindView} {state : FindState} {query : FindQuery} {next : Bool} {place : Nat}

/-- The current row is the selected one at a place among the matching rows. -/
def IsAt (view : FindView) (query : FindQuery) (place : Nat) (state : FindState) : Prop :=
  ∃ row column, (view.matchingRows query)[place]? = some row ∧ state.current = some (row, column) ∧
    state.selectedRows.contains row = true

/-- A search goes to the neighbour. -/
theorem IsAt.find (isAt : IsAt view query place state) (some_ : query.text.chars ≠ [])
    (next : Bool) :
    IsAt view query (neighbour next (view.matchingRows query).length place)
      (state.find view query next) := by
  obtain ⟨row, column, found, held, selected⟩ := isAt
  obtain ⟨inside, same⟩ := List.getElem?_eq_some_iff.mp found
  have listed := List.mem_of_getElem? found
  obtain ⟨target, targetColumn, current, targetSelected, finds⟩ := find_finds next some_ held
    (FindView.mem_matchingRows.mp listed).1 (List.ne_nil_of_mem listed)
  rw [selected, ← same] at finds
  -- The target is the neighbouring place, as both are the first candidate.
  have target_eq := finds.unique (finds_neighbour (view.pairwise_matchingRows query) inside)
  refine ⟨target, targetColumn, ?_, current, targetSelected⟩
  rw [target_eq]
  exact List.getElem?_eq_getElem _

/-- Any search with matching rows ends at a place. -/
theorem exists_isAt_find (some_ : query.text.chars ≠ []) {row column : Nat}
    (held : state.current = some (row, column))
    (inside : row < view.rowCount) (matching : view.matchingRows query ≠ []) (next : Bool) :
    ∃ place < (view.matchingRows query).length, IsAt view query place
      (state.find view query next) := by
  obtain ⟨target, targetColumn, current, selected, listed, -⟩ :=
    find_finds next some_ held inside matching
  obtain ⟨place, found⟩ := List.getElem?_of_mem listed
  exact ⟨place, (List.getElem?_eq_some_iff.mp found).1, target, targetColumn, found,
    current, selected⟩

/-- Steps to the next row go on and round. -/
theorem IsAt.iterate_find (isAt : IsAt view query place state) (some_ : query.text.chars ≠ [])
    (steps : Nat) :
    IsAt view query ((place + steps) % (view.matchingRows query).length)
      ((fun state => state.find view query true)^[steps] state) := by
  obtain ⟨inside, -⟩ : ∃ inside : place < (view.matchingRows query).length, True := by
    obtain ⟨row, column, found, -⟩ := isAt
    exact ⟨(List.getElem?_eq_some_iff.mp found).1, trivial⟩
  -- Each step goes to the next match, and behind the last one to the first.
  induction steps with
  | zero =>
    rw [Nat.add_zero, Nat.mod_eq_of_lt inside]
    exact isAt
  | succ steps ih =>
    rw [Function.iterate_succ_apply']
    have onward := ih.find some_ true
    have rounds : neighbour true (view.matchingRows query).length
      ((place + steps) % (view.matchingRows query).length) =
        (place + (steps + 1)) % (view.matchingRows query).length := by
      rw [neighbour, if_pos rfl, Nat.mod_add_mod, Nat.add_assoc]
    rwa [rounds] at onward

end FindState

end Loglib
