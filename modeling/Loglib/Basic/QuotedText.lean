import Loglib.Basic.Bytes

/-! Texts between quotation marks: with the marks inside doubled, or with escapes behind
backslashes. -/

namespace Loglib

/-- The byte on either side of a quoted text. -/
def quotationMark : Byte := ascii '"'

/-- The byte in front of an escape. -/
def escapeMark : Byte := ascii '\\'

section Doubling

/-- Every mark is written twice. -/
def doubleMarks (text : Bytes) : Bytes :=
  text.flatMap fun byte => if byte = quotationMark then [quotationMark, quotationMark] else [byte]

/-- Two marks in a row are one. -/
def halveMarks : Bytes → Bytes
  | [] => []
  | [byte] => [byte]
  | byte :: next :: rest =>
    if byte = quotationMark ∧ next = quotationMark then quotationMark :: halveMarks rest
    else byte :: halveMarks (next :: rest)

/-- What stands in front of the first mark that is not doubled, and what follows it. -/
def untilSingleMark : Bytes → Option (Bytes × Bytes)
  | [] => none
  | [byte] => if byte = quotationMark then some ([], []) else none
  | byte :: next :: rest =>
    if byte = quotationMark then
      if next = quotationMark then (untilSingleMark rest).map fun (inner, behind) =>
        (byte :: next :: inner, behind)
      else some ([], next :: rest)
    else (untilSingleMark (next :: rest)).map fun (inner, behind) => (byte :: inner, behind)

variable {text rest : Bytes} {byte : Byte}

/-- One byte that is no mark. -/
theorem untilSingleMark_cons (plain : byte ≠ quotationMark) (rest : Bytes) :
    untilSingleMark (byte :: rest) = (untilSingleMark rest).map fun (inner, behind) =>
      (byte :: inner, behind) := by
  cases rest <;> simp [untilSingleMark, plain]

/-- Doubled marks are passed over: the text ends at the mark behind it, unless another one
follows. -/
theorem untilSingleMark_doubleMarks (text : Bytes) (stops : rest.head? ≠ some quotationMark) :
    untilSingleMark (doubleMarks text ++ quotationMark :: rest) = some
      (doubleMarks text, rest) := by
  induction text with
  | nil =>
    cases rest with
    | nil => simp [doubleMarks, untilSingleMark]
    | cons next more =>
      -- A byte other than a mark follows, so the mark ends the text.
      have other : next ≠ quotationMark := by simpa using stops
      simp [doubleMarks, untilSingleMark, other]
  | cons byte text ih =>
    unfold doubleMarks at ih ⊢
    rw [List.flatMap_cons]
    -- A mark is doubled, and both are passed over.
    by_cases mark : byte = quotationMark
    · subst mark
      simp [untilSingleMark, ih]
    · rw [if_neg mark, List.append_assoc, List.singleton_append, untilSingleMark_cons mark, ih]
      simp

/-- One byte that is no mark. -/
theorem halveMarks_cons (plain : byte ≠ quotationMark) (rest : Bytes) :
    halveMarks (byte :: rest) = byte :: halveMarks rest := by
  cases rest <;> simp [halveMarks, plain]

/-- Halving undoes doubling. -/
@[simp] theorem halveMarks_doubleMarks (text : Bytes) : halveMarks (doubleMarks text) = text := by
  induction text with
  | nil => rfl
  | cons byte text ih =>
    unfold doubleMarks at ih ⊢
    rw [List.flatMap_cons]
    -- A doubled mark becomes one mark again.
    by_cases mark : byte = quotationMark
    · subst mark
      simp [halveMarks, ih]
    · rw [if_neg mark, List.singleton_append, halveMarks_cons mark, ih]

/-- A text without marks stays as it is. -/
theorem halveMarks_of_not_mem (plain : quotationMark ∉ text) : halveMarks text = text := by
  induction text with
  | nil => rfl
  | cons byte text ih =>
    rw [List.mem_cons, not_or] at plain
    rw [halveMarks_cons (Ne.symm plain.1), ih plain.2]

end Doubling

section Escaping

/-- The letter behind the backslash for a byte that is escaped. -/
def escapeLetter (byte : Byte) : Option Byte :=
  if byte = quotationMark then some quotationMark
  else if byte = escapeMark then some escapeMark
  else if byte = newline then some (ascii 'n')
  else if byte = ascii '\r' then some (ascii 'r')
  else if byte = ascii '\t' then some (ascii 't')
  else none

/-- A byte of a text between marks. -/
def escapeByte (byte : Byte) : Bytes :=
  match escapeLetter byte with
  | some letter => [escapeMark, letter]
  | none => [byte]

/-- Marks, backslashes, line ends and tabs are escaped. -/
def escapeText (text : Bytes) : Bytes := text.flatMap escapeByte

/-- The byte that a letter behind a backslash stands for. -/
def escapedByte (letter : Byte) : Option Byte :=
  if letter = ascii 'n' then some newline
  else if letter = ascii 'r' then some (ascii '\r')
  else if letter = ascii 't' then some (ascii '\t')
  else if letter = quotationMark then some quotationMark
  else if letter = escapeMark then some escapeMark
  else none

/-- Escapes become what they stand for. The fallback says what an unknown one becomes; a backslash
at the end stays. -/
def unescapeText (fallback : Byte → Bytes) : Bytes → Bytes
  | [] => []
  | [byte] => [byte]
  | byte :: next :: rest =>
    if byte = escapeMark then
      match escapedByte next with
      | some decoded => decoded :: unescapeText fallback rest
      | none => fallback next ++ unescapeText fallback rest
    else byte :: unescapeText fallback (next :: rest)

/-- What stands in front of the first mark that is not escaped, and what follows it. -/
def untilMark : Bytes → Option (Bytes × Bytes)
  | [] => none
  | [byte] => if byte = quotationMark then some ([], []) else none
  | byte :: next :: rest =>
    if byte = escapeMark then (untilMark rest).map fun (inner, behind) =>
      (byte :: next :: inner, behind)
    else if byte = quotationMark then some ([], next :: rest)
    else (untilMark (next :: rest)).map fun (inner, behind) => (byte :: inner, behind)

variable {text rest : Bytes} {byte letter : Byte} {fallback : Byte → Bytes}

/-- The letter of an escape stands for the byte. -/
theorem escapedByte_of_escapeLetter (escaped : escapeLetter byte = some letter) :
    escapedByte letter = some byte := by
  unfold escapeLetter at escaped
  split_ifs at escaped with mark backslash lineEnd return_ tab
  -- Each of the five bytes has its own letter.
  all_goals
    obtain rfl := Option.some.inj escaped
    subst byte
    decide

/-- A byte without an escape is neither a mark nor a backslash. -/
theorem plain_of_escapeLetter (plain : escapeLetter byte = none) :
    byte ≠ quotationMark ∧ byte ≠ escapeMark := by
  unfold escapeLetter at plain
  split_ifs at plain with mark backslash
  exact ⟨mark, backslash⟩

/-- One byte that is neither a mark nor a backslash. -/
theorem untilMark_cons (plain : byte ≠ quotationMark ∧ byte ≠ escapeMark) (rest : Bytes) :
    untilMark (byte :: rest) = (untilMark rest).map fun (inner, behind) =>
      (byte :: inner, behind) := by
  cases rest <;> simp [untilMark, plain.1, plain.2]

/-- Escaped bytes are passed over: the text ends at the mark behind it. -/
theorem untilMark_escapeText (text rest : Bytes) :
    untilMark (escapeText text ++ quotationMark :: rest) = some (escapeText text, rest) := by
  induction text with
  | nil =>
    have other : quotationMark ≠ escapeMark := by decide
    cases rest <;> simp [escapeText, untilMark, other]
  | cons byte text ih =>
    unfold escapeText at ih ⊢
    rw [List.flatMap_cons]
    cases escaped : escapeLetter byte with
    | some letter => simp [escapeByte, escaped, untilMark, ih]
    | none =>
      -- A byte without an escape is passed over alone.
      have plain := plain_of_escapeLetter escaped
      simp only [escapeByte, escaped, List.cons_append, List.nil_append]
      rw [untilMark_cons plain, ih]
      rfl

/-- One byte that is no backslash. -/
theorem unescapeText_cons (plain : byte ≠ escapeMark) (rest : Bytes) :
    unescapeText fallback (byte :: rest) = byte :: unescapeText fallback rest := by
  cases rest <;> simp [unescapeText, plain]

/-- Reading the escapes undoes writing them, whatever unknown ones become. -/
@[simp] theorem unescapeText_escapeText (fallback : Byte → Bytes) (text : Bytes) :
    unescapeText fallback (escapeText text) = text := by
  induction text with
  | nil => rfl
  | cons byte text ih =>
    unfold escapeText at ih ⊢
    rw [List.flatMap_cons]
    -- An escape is read by its letter, and another byte stands for itself.
    cases escaped : escapeLetter byte with
    | some letter =>
      simp [escapeByte, escaped, unescapeText, escapedByte_of_escapeLetter escaped, ih]
    | none =>
      simp only [escapeByte, escaped, List.singleton_append]
      rw [unescapeText_cons (plain_of_escapeLetter escaped).2, ih]

/-- A text without backslashes stays as it is. -/
theorem unescapeText_of_not_mem (plain : escapeMark ∉ text) :
    unescapeText fallback text = text := by
  induction text with
  | nil => rfl
  | cons byte text ih =>
    rw [List.mem_cons, not_or] at plain
    rw [unescapeText_cons (Ne.symm plain.1), ih plain.2]

end Escaping

end Loglib
