import Loglib.Basic.QuotedText

/-! One line of comma-separated cells: how it is written, how it is cut into cells, and that the
cells come back. -/

namespace Loglib

/-- The byte between two cells. -/
def comma : Byte := ascii ','

/-- One cell of a line. -/
structure CsvCell where
  value : Bytes
  wasQuoted : Bool
  /-- The value had doubled quotes and is a copy. -/
  fromScratch : Bool
deriving DecidableEq, Repr

/-- The cell behind a comma at the end. -/
def CsvCell.empty : CsvCell := ⟨[], false, false⟩

section Tokenizing

/-- What follows the next comma, `none` where there is none. -/
def behindComma (rest : Bytes) : Option Bytes :=
  match rest.dropWhile (· ≠ comma) with
  | [] => none
  | _ :: more => some more

/-- The cell at the front of a line, and what follows its comma. It fails where a quote is
not closed. -/
def nextCell (line : Bytes) : Option (CsvCell × Option Bytes) :=
  if line.head? = some quotationMark then
    (untilSingleMark (line.drop 1)).map fun (rawInner, rest) =>
      -- Bytes between the closing quote and the comma are skipped.
      let sawEscape := rawInner.contains quotationMark
      (⟨if sawEscape then halveMarks rawInner else rawInner, true, sawEscape⟩, behindComma rest)
  else some (⟨line.takeWhile (· ≠ comma), false, false⟩, behindComma line)

namespace CsvLine

/-- The cells from here on, and whether all quotes were closed. Each turn takes a comma. -/
def tokenizeFrom : Nat → Bytes → List CsvCell × Bool
  | 0, _ => ([], false)
  | turns + 1, line =>
    match nextCell line with
    | none => ([], false)
    | some (cell, none) => ([cell], true)
    | some (cell, some []) => ([cell, .empty], true)
    | some (cell, some (byte :: rest)) =>
      let (cells, closed) := tokenizeFrom turns (byte :: rest)
      (cell :: cells, closed)

/-- `TokenizeCsvLine`: the cells in order, and whether all quotes were closed. -/
def tokenizeCsvLine (line : Bytes) : List CsvCell × Bool := tokenizeFrom (line.length + 1) line

end CsvLine

end Tokenizing

section Writing

/-- `BareCellIsSafe`. -/
def bareCellIsSafe (value : Bytes) : Bool :=
  value.all fun byte => byte != comma && byte != quotationMark && byte != ascii '\r' &&
    byte != newline

/-- `AppendQuotedCell`. -/
def appendQuotedCell (value : Bytes) : Bytes :=
  quotationMark :: doubleMarks value ++ [quotationMark]

/-- `AppendCell`. -/
def appendCell (value : Bytes) : Bytes := if bareCellIsSafe value then value
    else appendQuotedCell value

/-- The loop of `CsvParser::ToString`: the cells, with a comma between two of them. -/
def csvLine : List Bytes → Bytes
  | [] => []
  | [cell] => appendCell cell
  | cell :: next :: rest => appendCell cell ++ comma :: csvLine (next :: rest)

/-- A written cell as the tokenizer reports it. -/
def CsvCell.ofWritten (value : Bytes) : CsvCell :=
  ⟨value, !bareCellIsSafe value, !bareCellIsSafe value && value.contains quotationMark⟩

end Writing

namespace CsvLine

section RoundTrip

variable {cell rest : Bytes} {cells : List Bytes}

/-- What follows a written cell: the end of the line, or a comma. -/
def AtCellEnd (rest : Bytes) : Prop := rest = [] ∨ rest.head? = some comma

/-- What follows the comma at which a cell ends. -/
theorem behindComma_of_cellEnd (ended : AtCellEnd rest) : behindComma rest = rest.tail? := by
  -- The text is at its end, or a comma stands there.
  rcases ended with rfl | comma_
  · rfl
  · cases rest with
    | nil => simp at comma_
    | cons byte more =>
      obtain rfl : byte = comma := by simpa using comma_
      simp [behindComma]

/-- A safe cell has neither commas nor quotes. -/
theorem bareCellIsSafe_plain (safe : bareCellIsSafe cell = true) :
    comma ∉ cell ∧ quotationMark ∉ cell := by
  have each := List.all_eq_true.mp safe
  refine ⟨fun member => ?_, fun member => ?_⟩
  · exact absurd (each comma member) (by decide)
  · exact absurd (each quotationMark member) (by decide)

/-- The marks of a doubled text are those of the text. -/
theorem mem_doubleMarks : quotationMark ∈ doubleMarks cell ↔ quotationMark ∈ cell := by
  simp only [doubleMarks, List.mem_flatMap]
  constructor
  · -- A doubled mark is a mark of the cell.
    rintro ⟨byte, member, inside⟩
    split at inside
    · rename_i same
      exact same ▸ member
    · exact (List.mem_singleton.mp inside) ▸ member
  · exact fun member => ⟨quotationMark, member, by simp⟩

/-- A written cell is read as it was, whatever path it takes. -/
theorem nextCell_appendCell (cell : Bytes) (ended : AtCellEnd rest) :
    nextCell (appendCell cell ++ rest) = some (.ofWritten cell, rest.tail?) := by
  have front : rest.head? ≠ some quotationMark := by
    rcases ended with rfl | comma_
    · simp
    · rw [comma_]
      decide
  unfold appendCell
  cases safe : bareCellIsSafe cell with
  | true =>
    -- A bare cell ends at the first comma.
    obtain ⟨noComma, noMark⟩ := bareCellIsSafe_plain safe
    have first : (cell ++ rest).head? ≠ some quotationMark := by
      cases cell with
      | nil => simpa using front
      | cons byte text =>
        rw [List.mem_cons, not_or] at noMark
        simpa using Ne.symm noMark.1
    have plain : ∀ byte ∈ cell, decide (byte ≠ comma) = true :=
      fun byte member => decide_eq_true fun same => noComma (same ▸ member)
    have taken : (cell ++ rest).takeWhile (· ≠ comma) = cell := by
      rw [List.takeWhile_append_of_pos plain]
      rcases ended with rfl | comma_
      · simp
      · cases rest with
        | nil => simp at comma_
        | cons byte more =>
          obtain rfl : byte = comma := by simpa using comma_
          simp
    have left : behindComma (cell ++ rest) = rest.tail? := by
      rw [← behindComma_of_cellEnd ended, behindComma, behindComma,
        List.dropWhile_append_of_pos plain]
    rw [if_pos rfl, nextCell, if_neg first, taken, left, CsvCell.ofWritten, safe]
    simp
  | false =>
    -- A quoted cell ends at the first quote that is not doubled.
    have first : (appendQuotedCell cell ++ rest).head? = some quotationMark := rfl
    have inner : (appendQuotedCell cell ++ rest).drop 1 = doubleMarks cell ++
        quotationMark :: rest := by
      simp [appendQuotedCell]
    have flag : (doubleMarks cell).contains quotationMark = cell.contains quotationMark := by
      rw [Bool.eq_iff_iff, List.contains_iff_mem, List.contains_iff_mem]
      exact mem_doubleMarks
    have value : (if cell.contains quotationMark then halveMarks (doubleMarks cell)
        else doubleMarks cell) = cell := by
      split
      · exact halveMarks_doubleMarks cell
      · rename_i plain
        have unmarked : quotationMark ∉ doubleMarks cell :=
          fun member => plain (List.contains_iff_mem.mpr (mem_doubleMarks.mp member))
        rw [← halveMarks_of_not_mem unmarked, halveMarks_doubleMarks]
    rw [if_neg Bool.false_ne_true, nextCell, if_pos first, inner,
      untilSingleMark_doubleMarks cell front, Option.map_some]
    simp only [flag, value, behindComma_of_cellEnd ended, CsvCell.ofWritten, safe, Bool.not_false,
      Bool.true_and]

/-- With a turn for each cell, the cells come back. -/
theorem tokenizeFrom_csvLine (some_ : cells ≠ []) {turns : Nat} (enough : cells.length ≤ turns) :
    tokenizeFrom turns (csvLine cells) = (cells.map .ofWritten, true) := by
  -- The induction is on the cells; behind the last comma an empty cell has its own branch.
  induction cells generalizing turns with
  | nil => exact absurd rfl some_
  | cons cell cells ih =>
    obtain ⟨turns, rfl⟩ : ∃ fewer, turns = fewer + 1 :=
      ⟨turns - 1, by simp only [List.length_cons] at enough; omega⟩
    cases cells with
    | nil =>
      have read := @nextCell_appendCell [] cell (.inl rfl)
      rw [List.append_nil] at read
      simp [csvLine, tokenizeFrom, read]
    | cons next rest =>
      have read := @nextCell_appendCell (comma :: csvLine (next :: rest)) cell (.inr rfl)
      have others := ih (List.cons_ne_nil next rest) (Nat.le_of_succ_le_succ enough)
      have unfolds : csvLine (cell :: next :: rest) = appendCell cell ++ comma ::
          csvLine (next :: rest) := rfl
      rw [unfolds, tokenizeFrom, read]
      simp only [List.tail?_cons]
      cases line : csvLine (next :: rest) with
      | nil =>
        -- Nothing is written behind the comma, so one empty cell is left.
        have only : rest = [] ∧ next = [] := by
          cases rest with
          | nil =>
            have none_ : appendCell next = [] := line
            unfold appendCell at none_
            split at none_
            · exact ⟨rfl, none_⟩
            · exact absurd none_ (List.cons_ne_nil _ _)
          | cons other more => exact absurd line (by simp [csvLine])
        obtain ⟨rfl, rfl⟩ := only
        rfl
      | cons byte more =>
        rw [line] at others
        simp only [others, List.map_cons]

/-- A line has at least as many bytes as commas. -/
theorem length_le_csvLine (cells : List Bytes) : cells.length ≤ (csvLine cells).length + 1 := by
  induction cells with
  | nil => simp
  | cons cell cells ih =>
    -- There is a comma between any two cells.
    cases cells with
    | nil => simp
    | cons next rest =>
      simp only [csvLine, List.length_cons, List.length_append] at ih ⊢
      omega

/-- A line written from cells is cut into these cells: as many, with the same bytes, and no quote is
left open. -/
theorem tokenizeCsvLine_csvLine (cells : List Bytes) (some_ : cells ≠ []) :
    (tokenizeCsvLine (csvLine cells)).1.map
      (·.value) = cells ∧ (tokenizeCsvLine (csvLine cells)).2 = true := by
  have read := tokenizeFrom_csvLine some_ (length_le_csvLine cells)
  rw [tokenizeCsvLine, read]
  refine ⟨?_, rfl⟩
  rw [List.map_map]
  exact List.map_id'' (fun _ => rfl) cells

/-- A quoted cell with a comma and a quote, and two empty ones. -/
theorem tokenizeCsvLine_quoted_and_empty :
    (tokenizeCsvLine (csvLine [bytes "a,\"b", [], bytes " c ", []])).1.map
    (·.value) = [bytes "a,\"b", [], bytes " c ", []] ∧
      (tokenizeCsvLine (csvLine [bytes "a,\"b", [], bytes " c ", []])).2 = true :=
  tokenizeCsvLine_csvLine _ (by decide)

end RoundTrip

end CsvLine

end Loglib
