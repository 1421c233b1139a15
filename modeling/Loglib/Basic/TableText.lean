import Loglib.Basic.QuotedText

/-! Tables as text: records of fields that may be quoted, and rows of cells between bars
with escapes. -/

namespace Loglib

section Records

/-- A byte of a field without quotes. -/
def isBareFieldByte (byte : Byte) : Bool :=
  byte != ascii ',' && byte != quotationMark && byte != ascii '\r' && byte != newline

/-- The field at the front of a text, and what stands behind it. -/
def readField (text : Bytes) : Option (Bytes × Bytes) :=
  if text.head? = some quotationMark then
    (untilSingleMark (text.drop 1)).map fun (inner, rest) => (halveMarks inner, rest)
  else some (text.takeWhile isBareFieldByte, text.dropWhile isBareFieldByte)

/-- The fields up to a line feed outside of quotes, and the text behind it. Each turn
takes a comma. -/
def readRecord : Nat → Bytes → Option (List Bytes × Bytes)
  | 0, _ => none
  | turns + 1, text =>
    match readField text with
    | some (field, byte :: rest) =>
      if byte = newline then some ([field], rest)
      else if byte = ascii ',' then
        (readRecord turns rest).map fun (fields, behind) => (field :: fields, behind)
      else none
    | _ => none

/-- The records of a text, of which each ends with a line feed. -/
def readRecordsFrom : Nat → Bytes → Option (List (List Bytes))
  | _, [] => some []
  | 0, _ => none
  | turns + 1, text =>
    match readRecord text.length text with
    | some (record, rest) => (readRecordsFrom turns rest).map (record :: ·)
    | none => none

/-- RFC 4180, with records that end with a line feed. -/
def readRecords (text : Bytes) : Option (List (List Bytes)) := readRecordsFrom text.length text

/-- A text between marks, with the marks inside doubled. -/
def quotedField (field : Bytes) : Bytes := quotationMark :: doubleMarks field ++ [quotationMark]

/-- Texts with a comma between two of them. -/
def joinFields (texts : List Bytes) : Bytes := [ascii ','].intercalate texts

/-- A text that stands for a field. -/
inductive Spells (field : Bytes) : Bytes → Prop where
  | bare (plain : field.all isBareFieldByte = true) : Spells field field
  | quoted : Spells field (quotedField field)

variable {α : Type*} {field text rest : Bytes}

/-- What ends a field. -/
def EndsField (rest : Bytes) : Prop := rest.head? = some (ascii ',') ∨ rest.head? = some newline

/-- A byte that ends a field belongs to none without quotes. -/
theorem EndsField.not_bare (ended : EndsField rest) : rest.head?.any isBareFieldByte = false := by
  rcases ended with head | head <;> rw [head] <;> rfl

/-- A field is read up to its end. -/
theorem readField_spelled (spelled : Spells field text) (ended : EndsField rest) :
    readField (text ++ rest) = some (field, rest) := by
  unfold readField
  cases spelled with
  | bare plain =>
    -- No byte of the field or of its end is a mark.
    have noMark : (field ++ rest).head? ≠ some quotationMark := by
      intro mark
      cases field with
      | nil =>
        rcases ended with head | head
          <;> · rw [List.nil_append, head] at mark; exact absurd mark (by decide)
      | cons byte field =>
        obtain rfl : byte = quotationMark := by simpa using mark
        exact absurd (List.all_eq_true.mp plain _ List.mem_cons_self) (by decide)
    have stops := ended.not_bare
    have all := List.all_eq_true.mp plain
    rw [if_neg noMark, List.takeWhile_append_of_pos all, List.dropWhile_append_of_pos all]
    cases rest with
    | nil => simp
    | cons byte rest =>
      have notBare : isBareFieldByte byte = false := by simpa using stops
      simp [notBare]
  | quoted =>
    have noMark : rest.head? ≠ some quotationMark := by
      rcases ended with head | head <;> rw [head] <;> decide
    -- The mark behind the field is a single one, since no mark follows it.
    have reads := untilSingleMark_doubleMarks field noMark
    simp only [quotedField, List.cons_append, List.head?_cons, if_true, List.drop_succ_cons,
      List.drop_zero, List.append_assoc,
      List.nil_append, reads, Option.map_some, halveMarks_doubleMarks]

/-- The fields of a record are read up to its line feed. -/
theorem readRecord_spelled {items : List α} {spelling value : α → Bytes}
    (spelled : ∀ item, Spells (value item) (spelling item))
    (some_ : items ≠ []) {turns : Nat} (enough : items.length ≤ turns) :
    readRecord turns (joinFields (items.map spelling) ++ newline :: rest) = some
      (items.map value, rest) := by
  -- The induction is on the fields: the last one ends at the line feed, and the others
  -- at their commas.
  induction items generalizing turns with
  | nil => exact absurd rfl some_
  | cons item others ih =>
    obtain ⟨turns, rfl⟩ : ∃ more, turns = more + 1 :=
      ⟨turns - 1, by rw [List.length_cons] at enough; omega⟩
    cases others with
    | nil =>
      -- The last field ends at the line feed.
      have ended : EndsField (newline :: rest) := .inr rfl
      have read := readField_spelled (spelled item) ended
      simp [readRecord, joinFields, List.intercalate, read]
    | cons next others =>
      -- A field with others behind it ends at its comma.
      have joined : joinFields ((item :: next :: others).map spelling) ++ newline :: rest =
          spelling item ++ ascii ',' :: (joinFields ((next :: others).map spelling) ++ newline ::
            rest) := by
        simp [joinFields, List.intercalate]
      have ended : EndsField (ascii ',' :: (joinFields ((next :: others).map spelling) ++ newline ::
          rest)) := .inl rfl
      have read := readField_spelled (spelled item) ended
      have later := ih (List.cons_ne_nil _ _) (by simpa using enough)
      have noLine : ascii ',' ≠ newline := by decide
      rw [joined, readRecord, read]
      dsimp only
      rw [if_neg noLine, if_pos rfl, later, Option.map_some]
      rfl

/-- There is a byte for each field and line feed of a record. -/
theorem length_le_joinFields (texts : List Bytes) :
    texts.length ≤ (joinFields texts).length + 1 := by
  induction texts with
  | nil => simp
  | cons text others ih =>
    cases others with
    | nil => simp
    | cons next others =>
      -- Each comma pays for the field in front of it.
      have joined : joinFields (text :: next :: others) = text ++ ascii ',' :: joinFields
          (next :: others) := by
        simp [joinFields, List.intercalate]
      rw [joined, List.length_cons, List.length_append, List.length_cons (a := ascii ',')]
      omega

/-- Written records are read back. -/
theorem readRecords_spelled {records : List (List α)} {spelling value : α → Bytes}
    (spelled : ∀ item, Spells (value item) (spelling item))
    (some_ : ∀ record ∈ records, record ≠ []) :
    readRecords (records.flatMap fun record => joinFields (record.map spelling) ++ [newline]) =
      some (records.map fun record => record.map value) := by
  -- Any number of turns from the length on suffices, which is what the induction on the
  -- records carries.
  suffices reads : ∀ turns,
    (records.flatMap fun record => joinFields (record.map spelling) ++ [newline]).length ≤ turns →
      readRecordsFrom turns (records.flatMap fun record =>
        joinFields (record.map spelling) ++ [newline]) =
        some (records.map fun record => record.map value) from reads _ le_rfl
  induction records with
  | nil => intro turns _; cases turns <;> rfl
  | cons record others ih =>
    intro turns enough
    obtain ⟨first, later⟩ := List.forall_mem_cons.mp some_
    rw [List.flatMap_cons] at enough ⊢
    generalize behind : others.flatMap (fun record =>
      joinFields (record.map spelling) ++ [newline]) = rest at *
    have split : joinFields (record.map spelling) ++ [newline] ++ rest = joinFields
        (record.map spelling) ++ newline :: rest := by
      simp
    -- A record takes one turn, and leaves the turns that the others need.
    have fields := length_le_joinFields (record.map spelling)
    rw [split] at enough ⊢
    rw [List.length_append, List.length_cons] at enough
    rw [List.length_map] at fields
    obtain ⟨turns, rfl⟩ : ∃ more, turns = more + 1 := ⟨turns - 1, by omega⟩
    have enoughTurns : record.length ≤
        (joinFields (record.map spelling) ++ newline :: rest).length := by
      rw [List.length_append, List.length_cons]
      omega
    have read : readRecord _ _ = some (record.map value, rest) :=
      readRecord_spelled spelled first enoughTurns
    have tail := ih later turns (by omega)
    cases text : joinFields (record.map spelling) ++ newline :: rest with
    | nil => simp at text
    | cons byte more =>
      rw [text] at read
      rw [readRecordsFrom]
      · simp only [read, tail, Option.map_some, List.map_cons]
      · simp

end Records

section Bars

/-- The byte between two cells of a row. -/
def bar : Byte := ascii '|'

/-- Put a text in front of the first piece. -/
def consPiece (front : Bytes) : List Bytes → List Bytes
  | [] => [front]
  | piece :: pieces => (front ++ piece) :: pieces

/-- The pieces between the bars that no backslash escapes, with their escapes. -/
def splitBars : Bytes → List Bytes
  | [] => [[]]
  | [byte] => if byte = bar then [[], []] else [[byte]]
  | byte :: next :: rest =>
    if byte = bar then [] :: splitBars (next :: rest)
    else if byte = escapeMark then consPiece [byte, next] (splitBars rest)
    else consPiece [byte] (splitBars (next :: rest))

/-- The text without the backslashes of its escapes. -/
def unescapeBars : Bytes → Bytes
  | [] => []
  | [byte] => [byte]
  | byte :: next :: rest =>
    if byte = escapeMark then next :: unescapeBars rest else byte :: unescapeBars (next :: rest)

/-- A cell without the blanks around it and its escapes. -/
def readCell (piece : Bytes) : Option Bytes :=
  if 2 ≤ piece.length ∧ piece.head? = some (ascii ' ') ∧ piece.getLast? = some (ascii ' ') then
    some (unescapeBars (piece.drop 1).dropLast)
  else none

/-- The cells of a row that starts and ends with a bar. -/
def readTableRow (line : Bytes) : Option (List Bytes) :=
  match splitBars line with
  | [] :: pieces => if pieces.getLast? = some [] then pieces.dropLast.mapM readCell else none
  | _ => none

/-- A text with its bars and backslashes escaped. -/
def escapeBars (cell : Bytes) : Bytes :=
  cell.flatMap fun byte => if byte = bar ∨ byte = escapeMark then [escapeMark, byte] else [byte]

/-- A cell as it stands between two bars. -/
def paddedCell (cell : Bytes) : Bytes := ascii ' ' :: escapeBars cell ++ [ascii ' ']

/-- A row of cells. -/
def tableRow (cells : List Bytes) : Bytes :=
  bar :: cells.flatMap fun cell => paddedCell cell ++ [bar]

variable {cell front behind rest : Bytes} {pieces : List Bytes} {byte : Byte}

/-- Texts come in front of the first piece one after the other. -/
theorem consPiece_consPiece (front behind : Bytes) (pieces : List Bytes) :
    consPiece front (consPiece behind pieces) = consPiece (front ++ behind) pieces := by
  cases pieces <;> simp [consPiece]

/-- A bar ends a piece. -/
theorem splitBars_bar (rest : Bytes) : splitBars (bar :: rest) = [] :: splitBars rest := by
  cases rest <;> simp [splitBars]

/-- A byte of a piece. -/
theorem splitBars_cons (noBar : byte ≠ bar) (plain : byte ≠ escapeMark) (rest : Bytes) :
    splitBars (byte :: rest) = consPiece [byte] (splitBars rest) := by
  cases rest <;> simp [splitBars, consPiece, noBar, plain]

/-- There is always a piece. -/
theorem splitBars_ne_nil (text : Bytes) : splitBars text ≠ [] := by
  cases text with
  | nil => simp [splitBars]
  | cons byte text =>
    -- A piece that is put in front leaves at least one.
    have some_ : ∀ pieces : List Bytes, ∀ front : Bytes, consPiece front pieces ≠ [] := by
      intro pieces front
      cases pieces <;> simp [consPiece]
    cases text with
    | nil =>
      rw [splitBars]
      split <;> simp
    | cons next rest =>
      rw [splitBars]
      split
      · simp
      · split <;> exact some_ _ _

/-- An escaped text is part of one piece. -/
theorem splitBars_escapeBars (cell rest : Bytes) :
    splitBars (escapeBars cell ++ rest) = consPiece (escapeBars cell) (splitBars rest) := by
  induction cell with
  | nil =>
    obtain ⟨piece, pieces, split⟩ := List.exists_cons_of_ne_nil (splitBars_ne_nil rest)
    simp [escapeBars, split, consPiece]
  | cons byte cell ih =>
    unfold escapeBars at ih ⊢
    rw [List.flatMap_cons]
    split
    · -- The backslash takes the byte behind it into the piece.
      have noBar : escapeMark ≠ bar := by decide
      rw [List.append_assoc, List.cons_append, List.cons_append, List.nil_append, splitBars,
        if_neg noBar, if_pos rfl]
      simp only [ih, consPiece_consPiece]
    · -- A byte that is neither a bar nor a backslash is a part of the piece by itself.
      rename_i plain
      rw [not_or] at plain
      rw [List.append_assoc, List.singleton_append, splitBars_cons plain.1 plain.2, ih,
        consPiece_consPiece]

/-- The pieces of a row behind its first bar. -/
theorem splitBars_cells (cells : List Bytes) :
    splitBars (cells.flatMap fun cell => paddedCell cell ++ [bar]) =
      cells.map paddedCell ++ [[]] := by
  have blank : ascii ' ' ≠ bar ∧ ascii ' ' ≠ escapeMark := by decide
  induction cells with
  | nil => rfl
  | cons cell cells ih =>
    generalize behind : cells.flatMap (fun cell => paddedCell cell ++ [bar]) = rest at ih
    -- A cell is its escaped text between two blanks, with a bar behind it.
    have row : (cell :: cells).flatMap (fun cell => paddedCell cell ++ [bar]) =
        ascii ' ' :: (escapeBars cell ++ ascii ' ' :: bar :: rest) := by
      rw [List.flatMap_cons, behind]
      simp [paddedCell]
    rw [row, splitBars_cons blank.1 blank.2, splitBars_escapeBars, splitBars_cons blank.1 blank.2,
      splitBars_bar, ih,
      consPiece_consPiece, consPiece_consPiece]
    simp [consPiece, paddedCell]

/-- A byte that is no backslash stays. -/
theorem unescapeBars_cons (plain : byte ≠ escapeMark) (rest : Bytes) :
    unescapeBars (byte :: rest) = byte :: unescapeBars rest := by
  cases rest <;> simp [unescapeBars, plain]

/-- Escapes are undone. -/
theorem unescapeBars_escapeBars (cell : Bytes) : unescapeBars (escapeBars cell) = cell := by
  -- A bar has a backslash in front, every other byte stands for itself.
  induction cell with
  | nil => rfl
  | cons byte cell ih =>
    unfold escapeBars at ih ⊢
    rw [List.flatMap_cons]
    split
    · simp [unescapeBars, ih]
    · rename_i plain
      rw [not_or] at plain
      rw [List.singleton_append, unescapeBars_cons plain.2, ih]

/-- A padded cell is read back. -/
theorem readCell_paddedCell (cell : Bytes) : readCell (paddedCell cell) = some cell := by
  have last : (paddedCell cell).getLast? = some (ascii ' ') :=
    List.getLast?_concat (l := ascii ' ' :: escapeBars cell)
  have long : 2 ≤ (paddedCell cell).length := by simp [paddedCell]
  have inner : ((paddedCell cell).drop 1).dropLast = escapeBars cell := by simp [paddedCell]
  -- The blanks are taken off before the escapes are undone.
  rw [readCell, if_pos ⟨long, rfl, last⟩, inner, unescapeBars_escapeBars]

/-- A row is read back. -/
theorem readTableRow_tableRow (cells : List Bytes) :
    readTableRow (tableRow cells) = some cells := by
  have reads : (cells.map paddedCell).mapM readCell = some cells := by
    rw [List.mapM_map]
    induction cells with
    | nil => rfl
    | cons cell cells ih => simp [readCell_paddedCell, ih]
  -- The bar in front of a row and the one at its end leave an empty piece each.
  have split : splitBars (tableRow cells) = [] :: (cells.map paddedCell ++ [[]]) := by
    rw [tableRow, splitBars_bar, splitBars_cells]
  simp [readTableRow, split, reads]

/-- A row has the bytes of its cells, and those around them. -/
theorem mem_tableRow {cells : List Bytes} (member : byte ∈ tableRow cells) :
    byte = bar ∨ byte = escapeMark ∨ byte = ascii ' ' ∨ ∃ cell ∈ cells, byte ∈ cell := by
  rw [tableRow, List.mem_cons, List.mem_flatMap] at member
  obtain first | ⟨cell, listed, inside⟩ := member
  · exact .inl first
  · simp only [paddedCell, escapeBars, List.cons_append, List.append_assoc, List.mem_cons,
      List.mem_append, List.mem_flatMap,
      List.not_mem_nil, or_false, false_or] at inside
    obtain blank | ⟨own, held, escaped⟩ | blank | last := inside
    · exact .inr (.inr (.inl blank))
    · -- A byte of an escaped text is a backslash or a byte of the text.
      split at escaped
      · obtain escape | same := by simpa using escaped
        · exact .inr (.inl escape)
        · exact .inr (.inr (.inr ⟨cell, listed, same ▸ held⟩))
      · obtain rfl : byte = own := by simpa using escaped
        exact .inr (.inr (.inr ⟨cell, listed, held⟩))
    · exact .inr (.inr (.inl blank))
    · exact .inl last

end Bars

end Loglib
