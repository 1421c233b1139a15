import Mathlib

/-! Sequences cut at a separator: complete lines, and the unfinished rest behind the last
of them. -/

namespace Loglib

section Joining

variable {α : Type*} (sep : α)

/-- Lines, each closed by a separator. -/
def joinLines (lines : List (List α)) : List α := lines.flatMap fun line => line ++ [sep]

/-- Joining is additive. -/
@[simp] theorem joinLines_append (first second : List (List α)) :
    joinLines sep (first ++ second) = joinLines sep first ++ joinLines sep second := by
  simp [joinLines]

/-- Joining one line more. -/
@[simp] theorem joinLines_cons (line : List α) (lines : List (List α)) :
    joinLines sep (line :: lines) = line ++ sep :: joinLines sep lines := by
  simp [joinLines]

/-- Nothing joins to nothing. -/
@[simp] theorem joinLines_nil : joinLines sep ([] : List (List α)) = [] := rfl

end Joining

section Splitting

variable {α : Type*} [DecidableEq α] (sep : α)

/-- Put one item in front of the first line, or of the rest where no line is complete. -/
def consLine (item : α) : List (List α) × List α → List (List α) × List α
  | ([], rest) => ([], item :: rest)
  | (line :: lines, rest) => ((item :: line) :: lines, rest)

/-- The complete lines without their separators, and what follows the last separator. -/
def splitLines : List α → List (List α) × List α
  | [] => ([], [])
  | item :: items =>
    if item = sep then ([] :: (splitLines items).1, (splitLines items).2)
    else consLine item (splitLines items)

/-- The pieces make up the whole. -/
theorem joinLines_splitLines (items : List α) :
    joinLines sep (splitLines sep items).1 ++ (splitLines sep items).2 = items := by
  induction items with
  | nil => rfl
  | cons item items ih =>
    simp only [splitLines]
    split
    · rename_i same
      simp [ih, same]
    · -- The item joins the first piece, whichever it is.
      cases lines : (splitLines sep items).1 with
      | nil =>
        rw [lines] at ih
        have pieces : splitLines sep items = ([], (splitLines sep items).2) := by rw [← lines]
        rw [pieces]
        simpa [consLine] using ih
      | cons line others =>
        rw [lines] at ih
        have pieces : splitLines sep items = (line :: others, (splitLines sep items).2) := by
          rw [← lines]
        rw [pieces]
        simpa [consLine] using ih

/-- Without a separator there is no complete line. -/
theorem splitLines_of_not_mem {items : List α} (absent : sep ∉ items) :
    splitLines sep items = ([], items) := by
  induction items with
  | nil => rfl
  | cons item items ih =>
    have differs : item ≠ sep := fun same => absent (same ▸ List.mem_cons_self)
    have later := ih fun member => absent (List.mem_cons_of_mem item member)
    simp [splitLines, differs, later, consLine]

/-- A first line that is complete. -/
theorem splitLines_line {line : List α} (absent : sep ∉ line) (items : List α) :
    splitLines sep (line ++ sep :: items) =
      (line :: (splitLines sep items).1, (splitLines sep items).2) := by
  induction line with
  | nil => simp [splitLines]
  | cons item line ih =>
    have differs : item ≠ sep := fun same => absent (same ▸ List.mem_cons_self)
    have later := ih fun member => absent (List.mem_cons_of_mem item member)
    simp [splitLines, differs, later, consLine]

/-- Complete lines in front stay as they are. -/
theorem splitLines_joinLines_append {lines : List (List α)} (whole : ∀ line ∈ lines, sep ∉ line)
    (items : List α) :
    splitLines sep (joinLines sep lines ++ items) =
      (lines ++ (splitLines sep items).1, (splitLines sep items).2) := by
  -- Line by line; none of them has a separator.
  induction lines with
  | nil => simp
  | cons line lines ih =>
    have later := ih fun other member => whole other (List.mem_cons_of_mem line member)
    rw [joinLines_cons, List.append_assoc, List.cons_append,
      splitLines_line sep (whole line List.mem_cons_self), later]
    simp

/-- No piece contains a separator. -/
theorem not_mem_splitLines (items : List α) :
    (∀ line ∈ (splitLines sep items).1, sep ∉ line) ∧ sep ∉ (splitLines sep items).2 := by
  induction items with
  | nil => simp [splitLines]
  | cons item items ih =>
    obtain ⟨whole, rest⟩ := ih
    simp only [splitLines]
    split
    · exact ⟨List.forall_mem_cons.mpr ⟨List.not_mem_nil, whole⟩, rest⟩
    · rename_i differs
      have notSep : sep ≠ item := fun same => differs same.symm
      -- Another item joins the first line, or the rest if there is none.
      rcases pieces : splitLines sep items with ⟨_ | ⟨line, lines⟩, tail⟩
      · rw [pieces] at rest
        exact ⟨by simp [consLine], by simpa [consLine, notSep] using rest⟩
      · rw [pieces] at whole rest
        obtain ⟨first, others⟩ := List.forall_mem_cons.mp whole
        exact ⟨List.forall_mem_cons.mpr ⟨by simpa [notSep] using first, others⟩, rest⟩

/-- What is cut into two is split at the same places: the second part continues the unfinished
rest of the first. -/
theorem splitLines_append (first second : List α) :
    splitLines sep (first ++ second) =
      ((splitLines sep first).1 ++ (splitLines sep ((splitLines sep first).2 ++ second)).1,
        (splitLines sep ((splitLines sep first).2 ++ second)).2) := by
  conv_lhs => rw [← joinLines_splitLines sep first, List.append_assoc]
  exact splitLines_joinLines_append sep (not_mem_splitLines sep first).1 _

/-- Joined lines split into themselves. -/
theorem splitLines_joinLines {lines : List (List α)} (whole : ∀ line ∈ lines, sep ∉ line) :
    splitLines sep (joinLines sep lines) = (lines, []) := by
  have split := splitLines_joinLines_append sep whole []
  simpa [splitLines] using split

/-- The complete lines of a prefix come first. -/
theorem splitLines_prefix (first second : List α) :
    (splitLines sep first).1 <+: (splitLines sep (first ++ second)).1 := by
  rw [splitLines_append]
  exact List.prefix_append _ _

/-- What ends with a separator has no unfinished rest. -/
theorem splitLines_concat (items : List α) :
    splitLines sep (items ++ [sep]) =
      ((splitLines sep items).1 ++ [(splitLines sep items).2], []) := by
  rw [splitLines_append, splitLines_line sep (not_mem_splitLines sep items).2]
  simp [splitLines]

/-- Everything up to and including the first separator. -/
def throughSeparator (items : List α) : List α :=
  items.takeWhile (· ≠ sep) ++ (items.dropWhile (· ≠ sep)).take 1

/-- Everything behind the first separator. -/
def afterSeparator (items : List α) : List α := (items.dropWhile (· ≠ sep)).drop 1

/-- The two parts make up the whole. -/
theorem throughSeparator_append_afterSeparator (items : List α) :
    throughSeparator sep items ++ afterSeparator sep items = items := by
  unfold throughSeparator afterSeparator
  rw [List.append_assoc, List.take_append_drop, List.takeWhile_append_dropWhile]

/-- The part through the first separator ends there, unless nothing is behind it. -/
theorem throughSeparator_cases (items : List α) :
    (∃ line, sep ∉ line ∧ throughSeparator sep items = line ++ [sep]) ∨
      afterSeparator sep items = [] := by
  unfold throughSeparator afterSeparator
  cases found : items.dropWhile (· ≠ sep) with
  | nil => exact .inr rfl
  | cons item rest =>
    -- The walk stopped at the item, so the item is the separator.
    have stops : ¬decide (item ≠ sep) = true := by
      have head := List.head?_dropWhile_not (fun other => decide (other ≠ sep)) items
      rw [found] at head
      simpa using head
    have same : item = sep := by simpa using stops
    refine .inl ⟨items.takeWhile (· ≠ sep), fun member => ?_, by simp [same]⟩
    have passed := List.mem_takeWhile_imp member
    simp at passed

/-- Where there is a separator, the part through the first one ends with it. -/
theorem throughSeparator_of_mem {items : List α} (member : sep ∈ items) :
    ∃ line, sep ∉ line ∧ throughSeparator sep items = line ++ [sep] := by
  obtain found | nothing := throughSeparator_cases sep items
  · exact found
  · -- Nothing is behind the first separator, so the part through it is everything.
    have whole := throughSeparator_append_afterSeparator sep items
    rw [nothing, List.append_nil] at whole
    obtain ⟨walk, rest, split, absent⟩ := List.eq_append_cons_of_mem member
    have behind : afterSeparator sep items = rest := by
      have walks : ∀ item ∈ walk, decide (item ≠ sep) = true := fun item inside =>
        decide_eq_true fun same => absent (same ▸ inside)
      unfold afterSeparator
      rw [split, List.dropWhile_append_of_pos walks]
      simp
    rw [nothing] at behind
    exact ⟨walk, absent, by rw [whole, split, ← behind]⟩

/-- Behind the first separator from any place of joined lines on, a suffix of the lines is left. -/
theorem afterSeparator_drop_joinLines {lines : List (List α)} (whole : ∀ line ∈ lines, sep ∉ line)
    (count : Nat) :
    ∃ rest, rest <:+ lines ∧ afterSeparator sep
      ((joinLines sep lines).drop count) = joinLines sep rest := by
  induction lines generalizing count with
  | nil => exact ⟨[], List.suffix_rfl, by simp [afterSeparator]⟩
  | cons line lines ih =>
    obtain ⟨first, others⟩ := List.forall_mem_cons.mp whole
    rw [joinLines_cons]
    by_cases inside : count ≤ line.length
    · -- The place is in the first line or on its separator, which is the first one from there on.
      have walks : ∀ item ∈ line.drop count, decide (item ≠ sep) = true := by
        intro item member
        have inLine := List.mem_of_mem_drop member
        exact decide_eq_true fun same => first (same ▸ inLine)
      refine ⟨lines, List.suffix_cons line lines, ?_⟩
      rw [List.drop_append_of_le_length inside]
      unfold afterSeparator
      rw [List.dropWhile_append_of_pos walks]
      simp
    · -- The place is behind the first line.
      obtain ⟨rest, suffix_, same⟩ := ih others (count - line.length - 1)
      have behind : (line ++ sep :: joinLines sep lines).drop count =
          (joinLines sep lines).drop (count - line.length - 1) := by
        obtain ⟨more, rfl⟩ : ∃ more, count = line.length + (more + 1) :=
          ⟨count - line.length - 1, by omega⟩
        rw [List.drop_length_add_append, List.drop_succ_cons]
        congr 1
        omega
      exact ⟨rest, suffix_.trans (List.suffix_cons line lines), by rw [behind, same]⟩

end Splitting

end Loglib
