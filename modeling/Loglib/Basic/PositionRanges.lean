import Mathlib

/-! Erasing the entries at some positions of a list, as ranges of neighbours and from the back. -/

namespace Loglib

section Coalescing

/-- The ranges of the positions after the range under way. -/
def coalesceFrom (rangeStart rangeEnd : Nat) : List Nat → List (Nat × Nat)
  | [] => [(rangeStart, rangeEnd)]
  | position :: rest =>
    if position = rangeEnd + 1 then coalesceFrom rangeStart position rest
    else (rangeStart, rangeEnd) :: coalesceFrom position position rest

/-- `coalesceRanges`: the positions as ranges of neighbours, both ends included. -/
def coalesceRanges : List Nat → List (Nat × Nat)
  | [] => []
  | position :: rest => coalesceFrom position position rest

end Coalescing

section Erasure

variable {α : Type*}

/-- The entries without those of a range. -/
def eraseRange (entries : List α) (range : Nat × Nat) : List α :=
  entries.take range.1 ++ entries.drop (range.2 + 1)

/-- The entries without those of the ranges, the last range first. -/
def eraseRanges (entries : List α) (ranges : List (Nat × Nat)) : List α :=
  ranges.foldr (fun range entries => eraseRange entries range) entries

/-- The positions, counted from `start`, of the entries to drop. -/
def positionsFrom (drops : α → Bool) (start : Nat) : List α → List Nat
  | [] => []
  | entry :: rest =>
    if drops entry then start :: positionsFrom drops (start + 1) rest
    else positionsFrom drops (start + 1) rest

variable {drops : α → Bool}

/-- Erasing a run of entries in the middle leaves what stands around it. -/
theorem eraseRange_append (front run back : List α) (some_ : run ≠ []) :
    eraseRange (front ++ run ++ back)
      (front.length, front.length + run.length - 1) = front ++ back := by
  have positive := List.length_pos_iff.mpr some_
  have stop : front.length + run.length - 1 + 1 = (front ++ run).length := by
    rw [List.length_append]
    omega
  rw [eraseRange, stop, List.drop_left, List.append_assoc, List.take_left]

/-- With a range under way, which kept entries may follow, the ranges erase it and all
drops that come. -/
theorem eraseRanges_coalesceFrom (rest : List α) :
    ∀ front run kept : List α, run ≠ [] →
      eraseRanges (front ++ run ++ kept ++ rest)
        (coalesceFrom front.length (front.length + run.length - 1)
        (positionsFrom drops (front ++ run ++ kept).length rest)) =
          front ++ kept ++ rest.filter fun entry => !drops entry := by
  induction rest with
  | nil =>
    intro front run kept some_
    simpa [eraseRanges, positionsFrom, coalesceFrom] using eraseRange_append front run kept some_
  | cons entry rest ih =>
    intro front run kept some_
    have positive := List.length_pos_iff.mpr some_
    cases dropped : drops entry with
    | false =>
      -- A kept entry ends no range by itself.
      have next := ih front run (kept ++ [entry]) some_
      simpa [positionsFrom, dropped, Nat.add_assoc] using next
    | true =>
      rw [positionsFrom, if_pos dropped, coalesceFrom]
      split
      · -- The entry is the neighbour of the range, so nothing was kept in between.
        rename_i neighbour
        have bare : kept = [] := by
          apply List.eq_nil_of_length_eq_zero
          rw [List.length_append, List.length_append] at neighbour
          omega
        subst bare
        have next := ih front (run ++ [entry]) [] (by simp)
        have stop : front.length + (run ++ [entry]).length - 1 = (front ++ run ++ []).length := by
          simp
        rw [stop] at next
        simpa [dropped, Nat.add_assoc] using next
      · -- The range is complete, and the entry starts the next one.
        have next := ih (front ++ run ++ kept) [entry] [] (by simp)
        have start : (front ++ run ++ kept).length + [entry].length - 1 =
            (front ++ run ++ kept).length := by simp
        rw [start] at next
        have later : eraseRanges (front ++ run ++ kept ++ entry :: rest)
            (coalesceFrom (front ++ run ++ kept).length (front ++ run ++ kept).length
              (positionsFrom drops ((front ++ run ++ kept).length + 1) rest)) =
            front ++ run ++ (kept ++ rest.filter fun entry => !drops entry) := by
          simpa [Nat.add_assoc] using next
        show eraseRange (eraseRanges _ _) _ = _
        rw [later, eraseRange_append front run _ some_]
        simp [dropped]

/-- Erasing the positions of the drops as ranges is filtering. -/
theorem eraseRanges_coalesceRanges (entries : List α) :
    eraseRanges entries (coalesceRanges (positionsFrom drops 0 entries)) =
      entries.filter fun entry => !drops entry := by
  have ahead : ∀ front : List α, eraseRanges (front ++ entries)
      (coalesceRanges (positionsFrom drops front.length entries)) =
        front ++ entries.filter fun entry => !drops entry := by
    -- Up to the first drop every entry is kept.
    induction entries with
    | nil =>
      intro front
      simp [eraseRanges, positionsFrom, coalesceRanges]
    | cons entry rest ih =>
      intro front
      cases dropped : drops entry with
      | false =>
        have next := ih (front ++ [entry])
        simpa [positionsFrom, dropped] using next
      | true =>
        have next := @eraseRanges_coalesceFrom α drops rest front [entry] [] (by simp)
        simpa [positionsFrom, coalesceRanges, dropped] using next
  exact ahead []

end Erasure

end Loglib
