import Loglib.Basic.Utf8Text
import Loglib.App.AnchorManager

/-! The one-line form of an anchor's note. -/

namespace Loglib.AnchorManager

/-- `MAX_NOTE_BYTES`. -/
def maxNoteBytes : Nat := 1024

/-- `' '`. -/
def noteSpace : Byte := ascii ' '

/-- A C0 control byte, or DEL. -/
def isNoteControl (ch : Byte) : Bool := decide (ch ≤ 0x1F) || ch == 0x7F

/-- The UTF-8 of U+2028 and U+2029. -/
def noteSeparators : List Bytes := [[0xE2, 0x80, 0xA8], [0xE2, 0x80, 0xA9]]

/-- How many bytes from `ch` on become one space together: zero where `ch` is kept. -/
def replacedBytes (ch : Byte) (rest : Bytes) : Nat :=
  if ch = ascii '\r' ∧ rest.head? = some newline then 2
  else if isNoteControl ch then 1
  else if noteSeparators.contains ((ch :: rest).take 3) then 3
  else 0

/-- The loop over the bytes. `skipped` counts those that a space already stands for. -/
def replaceControls : Nat → Bytes → Bytes
  | _, [] => []
  | skipped + 1, _ :: rest => replaceControls skipped rest
  | 0, ch :: rest =>
    match replacedBytes ch rest with
    | 0 => ch :: replaceControls 0 rest
    | skipped + 1 => noteSpace :: replaceControls skipped rest

/-- The spaces at the end are erased. -/
def dropTrailingSpaces (out : Bytes) : Bytes := out.rdropWhile (· == noteSpace)

/-- The spaces at both ends are erased. -/
def trimSpaces (out : Bytes) : Bytes := dropTrailingSpaces (out.dropWhile (· == noteSpace))

/-- The walk back from a continuation byte to the byte that opens its character. -/
def walkBack (out : Bytes) : Nat → Nat
  | 0 => 0
  | truncateAt + 1 =>
    if isContinuationByte (out.getD (truncateAt + 1) 0) then walkBack out truncateAt
      else truncateAt + 1

/-- Where a note over the cap is cut: a lead byte that the walk leaves at the end goes too. -/
def truncateAt (out : Bytes) : Nat :=
  let kept := walkBack out maxNoteBytes
  if 0 < kept ∧ isLeadByte (out.getD (kept - 1) 0) then kept - 1 else kept

/-- The length cap. -/
def capNote (out : Bytes) : Bytes :=
  if maxNoteBytes < out.length then dropTrailingSpaces (out.take (truncateAt out)) else out

/-- `SanitiseNote`. -/
def sanitiseNote (note : Bytes) : Bytes := capNote (trimSpaces (replaceControls 0 note))

/-- What a stored note is: short, on one line, and without spaces at its ends. -/
structure TidyNote (note : Bytes) : Prop where
  short : note.length ≤ maxNoteBytes
  visible : ∀ ch ∈ note, isNoteControl ch = false
  oneLine : ∀ separator ∈ noteSeparators, ¬separator <:+: note
  noLeadingSpace : note.head? ≠ some noteSpace
  noTrailingSpace : note.getLast? ≠ some noteSpace

/-! What the loop leaves. -/

/-- No control byte is part of a longer character. -/
theorem not_control_of_high {ch : Byte} (high : 0x80 ≤ ch.toNat) : isNoteControl ch = false := by
  revert high
  revert ch
  decide +kernel

/-- No control byte is left. -/
theorem replaceControls_visible (skipped : Nat) (note : Bytes) :
    ∀ ch ∈ replaceControls skipped note, isNoteControl ch = false := by
  induction note generalizing skipped with
  | nil => simp [replaceControls]
  | cons first rest ih =>
    cases skipped with
    | succ skipped => exact ih skipped
    | zero =>
      have space : isNoteControl noteSpace = false := by decide
      rw [replaceControls]
      split
      · rename_i kept
        -- A kept byte has failed the test for a control byte.
        have plain : isNoteControl first = false := by
          unfold replacedBytes at kept
          split_ifs at kept with _ control
          exact Bool.eq_false_iff.mpr control
        exact List.forall_mem_cons.mpr ⟨plain, ih 0⟩
      · exact List.forall_mem_cons.mpr ⟨space, ih _⟩

/-- What the output starts with, as far as no space stands in it, the input starts with. -/
theorem prefix_of_replaceControls {start note : Bytes} (spaceless : noteSpace ∉ start)
    (starts : start <+: replaceControls 0 note) : start <+: note := by
  -- A byte that is no space was not replaced, so the prefixes agree byte by byte.
  induction note generalizing start with
  | nil => exact starts
  | cons first rest ih =>
    cases start with
    | nil => exact List.nil_prefix
    | cons ch start =>
      rw [replaceControls] at starts
      split at starts
      · obtain ⟨same, starts⟩ := List.cons_prefix_cons.mp starts
        exact List.cons_prefix_cons.mpr ⟨same,
          ih (fun mem => spaceless (List.mem_cons_of_mem _ mem)) starts⟩
      · have same := (List.cons_prefix_cons.mp starts).1
        exact absurd (same ▸ List.mem_cons_self) spaceless

/-- No line separator is left. -/
theorem replaceControls_oneLine (skipped : Nat) (note : Bytes) :
    ∀ separator ∈ noteSeparators, ¬separator <:+: replaceControls skipped note := by
  intro separator listed
  have spaceless : noteSpace ∉ separator := by
    revert separator
    decide
  have three : separator.length = 3 := by
    revert separator
    decide
  induction note generalizing skipped with
  | nil =>
    intro inside
    have := inside.length_le
    simp [replaceControls, three] at this
  | cons first rest ih =>
    cases skipped with
    | succ skipped => exact ih skipped
    | zero =>
      intro inside
      have starts : separator <+: replaceControls 0 (first :: rest) := by
        rw [replaceControls] at inside ⊢
        -- A separator that does not start here lies in what the rest of the loop writes.
        split at inside
        · exact (List.infix_cons_iff.mp inside).resolve_right (ih 0)
        · exact (List.infix_cons_iff.mp inside).resolve_right (ih _)
      have opens : separator <+: first :: rest := prefix_of_replaceControls spaceless starts
      have found : (first :: rest).take 3 = separator := by
        rw [← three]
        exact (List.prefix_iff_eq_take.mp opens).symm
      -- So the loop has seen the separator, and has written a space for it.
      rw [replaceControls] at starts
      split at starts
      · rename_i kept
        unfold replacedBytes at kept
        rw [found] at kept
        split_ifs at kept with _ _ missed
        exact missed (List.contains_iff_mem.mpr listed)
      · cases separator with
        | nil => cases three
        | cons ch separator =>
          have same := (List.cons_prefix_cons.mp starts).1
          exact spaceless (same ▸ List.mem_cons_self)

/-- A note with nothing to replace passes the loop as it is. -/
theorem replaceControls_of_tidy {note : Bytes} (visible : ∀ ch ∈ note, isNoteControl ch = false)
    (oneLine : ∀ separator ∈ noteSeparators, ¬separator <:+: note) :
    replaceControls 0 note = note := by
  induction note with
  | nil => rfl
  | cons first rest ih =>
    obtain ⟨plain, visible⟩ := List.forall_mem_cons.mp visible
    have kept : replacedBytes first rest = 0 := by
      unfold replacedBytes
      rw [if_neg, plain, if_neg Bool.false_ne_true, if_neg]
      · intro listed
        exact oneLine _ (List.contains_iff_mem.mp listed) (List.take_prefix _ _).isInfix
      · -- A carriage return would be a control byte.
        rintro ⟨rfl, -⟩
        exact absurd plain (by decide)
    rw [replaceControls, kept]
    exact congrArg (first :: ·) (ih visible fun separator listed inside =>
      oneLine separator listed (List.infix_cons inside))

/-- A separator opens with the lead byte `0xE2`. -/
theorem lead_of_separator {ch : Byte} {rest : Bytes}
    (listed : noteSeparators.contains ((ch :: rest).take 3) = true) :
    ch = 0xE2 := by
  have mem := List.contains_iff_mem.mp listed
  rw [List.take_succ_cons] at mem
  simp only [noteSeparators, List.mem_cons, List.cons.injEq, List.not_mem_nil, or_false] at mem
  exact mem.elim And.left And.left

/-- From `0x80` up, a byte is kept unless it opens a separator. -/
theorem replacedBytes_of_high {ch : Byte} (high : 0x80 ≤ ch.toNat) (rest : Bytes) :
    replacedBytes ch rest = if noteSeparators.contains ((ch :: rest).take 3) then 3 else 0 := by
  have plain : isNoteControl ch = false := not_control_of_high high
  rw [replacedBytes, if_neg, plain, if_neg Bool.false_ne_true]
  rintro ⟨rfl, -⟩
  exact absurd high (by decide)

/-- The bytes inside a character are kept. -/
theorem replaceControls_continuation {inner : Bytes}
    (continues : ∀ b ∈ inner, isContinuationByte b = true) (rest : Bytes) :
    replaceControls 0 (inner ++ rest) = inner ++ replaceControls 0 rest := by
  induction inner with
  | nil => rfl
  | cons b inner ih =>
    obtain ⟨first, continues⟩ := List.forall_mem_cons.mp continues
    have kept : replacedBytes b (inner ++ rest) = 0 := by
      rw [replacedBytes_of_high ((isContinuationByte_iff b).mp first).1, if_neg]
      -- A continuation byte is not the lead byte of a separator.
      intro listed
      rw [lead_of_separator listed] at first
      exact absurd first (by decide)
    rw [List.cons_append, replaceControls, kept]
    exact congrArg (b :: ·) (ih continues)

/-- Skipped bytes are passed over. -/
theorem replaceControls_skipped (inner rest : Bytes) :
    replaceControls inner.length (inner ++ rest) = replaceControls 0 rest := by
  induction inner with
  | nil => rfl
  | cons b inner ih => exact ih

/-- The loop keeps UTF-8: what it replaces are whole characters. -/
theorem replaceControls_utf8 (chars : List Char) :
    IsUtf8 (replaceControls 0 (utf8Bytes chars)) := by
  have space : IsUtf8 [noteSpace] := .singleton (by decide)
  -- The induction is on the number of characters, as a line end takes two of them.
  induction bound : chars.length using Nat.strong_induction_on generalizing chars with
  | _ count ih =>
    cases chars with
    | nil => exact .nil
    | cons c chars =>
      have later : IsUtf8 (replaceControls 0 (utf8Bytes chars)) :=
        ih chars.length (by rw [← bound]; simp) chars rfl
      rw [utf8Bytes_cons]
      obtain ⟨b, shape, small⟩ | ⟨lead, inner, shape, high, -, continues, three⟩ :=
        utf8EncodeChar_cases c
      · rw [shape, List.singleton_append, replaceControls]
        unfold replacedBytes
        split_ifs with lineEnd control separator
        · -- A carriage return takes the line feed behind it, which is a character of its own.
          cases chars with
          | nil => cases lineEnd.2
          | cons d others =>
            rw [utf8Bytes_cons] at lineEnd ⊢
            obtain ⟨e, feed, -⟩ | ⟨lead, inner, feed, high, -⟩ := utf8EncodeChar_cases d
            · rw [feed]
              exact space.append (ih others.length (by rw [← bound]; simp) others rfl)
            · rw [feed] at lineEnd
              have same : lead = newline := Option.some.inj lineEnd.2
              exact absurd (same ▸ high) (by decide)
        · exact space.append later
        · rw [lead_of_separator separator] at small
          exact absurd small (by decide)
        · exact (IsUtf8.singleton small).append later
      · rw [shape, List.cons_append, replaceControls, replacedBytes_of_high (by omega)]
        split_ifs with separator
        · -- A separator is the whole character, so the skipped bytes are its other two.
          have two : inner.length = 2 := three (lead_of_separator separator)
          have skips := replaceControls_skipped inner (utf8Bytes chars)
          rw [two] at skips
          exact space.append (skips ▸ later)
        · have whole : IsUtf8 (lead :: inner) :=
            ⟨[c], by rw [← shape]; exact List.flatMap_singleton _ _⟩
          exact (replaceControls_continuation continues _).symm ▸ whole.append later

/-! The trims. -/

/-- What is left is the front of the text. -/
theorem prefix_dropTrailingSpaces (out : Bytes) : dropTrailingSpaces out <+: out :=
  List.rdropWhile_prefix _ out

/-- No space is left at the end. -/
theorem dropTrailingSpaces_last (out : Bytes) :
    (dropTrailingSpaces out).getLast? ≠ some noteSpace := by
  intro ends
  -- The last byte that is kept failed the test for a space.
  have filled : dropTrailingSpaces out ≠ [] := by
    rintro none
    rw [none] at ends
    cases ends
  have kept := List.rdropWhile_last_not (· == noteSpace) out filled
  rw [List.getLast?_eq_some_getLast filled, Option.some_inj] at ends
  exact kept (beq_iff_eq.mpr ends)

/-- The front of a note opens as the note does, if it opens at all. -/
theorem head_of_prefix {front out : Bytes} (starts : front <+: out)
    (trimmed : out.head? ≠ some noteSpace) :
    front.head? ≠ some noteSpace := by
  cases front with
  | nil => simp
  | cons ch front =>
    obtain ⟨rest, rfl⟩ := starts
    exact trimmed

/-- No space is left at the start. -/
theorem trimSpaces_head (out : Bytes) : (trimSpaces out).head? ≠ some noteSpace := by
  refine head_of_prefix (prefix_dropTrailingSpaces _) ?_
  intro opens
  have kept := List.head?_dropWhile_not (· == noteSpace) out
  rw [opens] at kept
  exact absurd kept (by simp)

/-- Spaces at the end of a UTF-8 text are characters of their own. -/
theorem dropTrailingSpaces_utf8 {out : Bytes} (text : IsUtf8 out) :
    IsUtf8 (dropTrailingSpaces out) := by
  -- From the back: a space is a character of its own.
  induction out using List.reverseRecOn with
  | nil => exact text
  | append_singleton out ch ih =>
    rw [dropTrailingSpaces, List.rdropWhile_concat]
    split_ifs with space
    · have opens : isContinuationByte ch = false := by
        rw [beq_iff_eq.mp space]
        decide
      exact ih (text.split opens).1
    · exact text

/-- Trimming keeps UTF-8. -/
theorem trimSpaces_utf8 {out : Bytes} (text : IsUtf8 out) : IsUtf8 (trimSpaces out) := by
  refine dropTrailingSpaces_utf8 ?_
  -- From the front: a space is a character of its own.
  induction out with
  | nil => exact text
  | cons ch out ih =>
    rw [List.dropWhile_cons]
    split_ifs with space
    · refine ih (text.tail ?_)
      rw [beq_iff_eq.mp space]
      decide
    · exact text

/-- A note without spaces at its ends passes the trims as it is. -/
theorem dropTrailingSpaces_of_last {out : Bytes} (trimmed : out.getLast? ≠ some noteSpace) :
    dropTrailingSpaces out = out := by
  rw [dropTrailingSpaces, List.rdropWhile_eq_self_iff]
  intro filled space
  rw [List.getLast?_eq_some_getLast filled, beq_iff_eq.mp space] at trimmed
  exact trimmed rfl

/-- A text without spaces at its ends stays. -/
theorem trimSpaces_of_tidy {out : Bytes} (leading : out.head? ≠ some noteSpace)
    (trailing : out.getLast? ≠ some noteSpace) :
    trimSpaces out = out := by
  -- The first byte is no space, so nothing is dropped in front.
  have front : out.dropWhile (· == noteSpace) = out := by
    cases out with
    | nil => rfl
    | cons ch out =>
      refine List.dropWhile_cons_of_neg ?_
      intro space
      exact leading (congrArg some (beq_iff_eq.mp space))
  rw [trimSpaces, front, dropTrailingSpaces_of_last trailing]

/-! The cap. -/

/-- The walk only goes back. -/
theorem walkBack_le (out : Bytes) (start : Nat) : walkBack out start ≤ start := by
  -- One byte back at a time.
  induction start with
  | zero => exact le_rfl
  | succ start ih =>
    rw [walkBack]
    split_ifs
    · exact ih.trans (Nat.le_succ start)
    · exact le_rfl

/-- The walk ends at the start, or at a byte that opens a character. -/
theorem walkBack_opens (out : Bytes) (start : Nat) :
    walkBack out start = 0 ∨ isContinuationByte (out.getD (walkBack out start) 0) = false := by
  -- The walk stops at a byte that opens a character, or at the front.
  induction start with
  | zero => exact .inl rfl
  | succ start ih =>
    rw [walkBack]
    split_ifs with continues
    · exact ih
    · exact .inr (Bool.eq_false_iff.mpr continues)

/-- The cut is within the cap. -/
theorem truncateAt_le (out : Bytes) : truncateAt out ≤ maxNoteBytes := by
  have walked := walkBack_le out maxNoteBytes
  simp only [truncateAt]
  split_ifs <;> omega

/-- The cut falls between two characters. -/
theorem take_truncateAt_utf8 {out : Bytes} (text : IsUtf8 out) (long : maxNoteBytes < out.length) :
    IsUtf8 (out.take (truncateAt out)) := by
  obtain ⟨kept, walk⟩ : ∃ kept, walkBack out maxNoteBytes = kept := ⟨_, rfl⟩
  have inside : kept < out.length := by
    have walked := walkBack_le out maxNoteBytes
    omega
  have whole : IsUtf8 (out.take kept) := by
    obtain none | opens := walkBack_opens out maxNoteBytes
    · rw [walk] at none
      rw [none]
      exact .nil
    · rw [walk, List.getD_eq_getElem _ _ inside] at opens
      rw [← List.take_append_drop kept out, List.drop_eq_getElem_cons inside] at text
      exact (text.split opens).1
  simp only [truncateAt, walk]
  rw [if_neg]
  · exact whole
  · -- What the walk keeps ends with a whole character, so its last byte is no lead byte.
    rintro ⟨some, lead⟩
    have before : kept - 1 < out.length := by omega
    rw [List.getD_eq_getElem _ _ before] at lead
    have ends : out.take kept = out.take (kept - 1) ++ [out[kept - 1]] := by
      rw [List.take_concat_get' _ _ before, Nat.sub_add_cancel some]
    rw [ends] at whole
    rw [whole.last] at lead
    cases lead

/-- The capped note is a front of the note. -/
theorem capNote_prefix (out : Bytes) : capNote out <+: out := by
  rw [capNote]
  split_ifs
  · exact (prefix_dropTrailingSpaces _).trans (List.take_prefix _ _)
  · exact List.prefix_refl out

/-- A capped note is within the cap. -/
theorem capNote_length (out : Bytes) : (capNote out).length ≤ maxNoteBytes := by
  rw [capNote]
  -- Cut, and then trimmed; neither adds anything.
  split_ifs with long
  · calc (dropTrailingSpaces (out.take (truncateAt out))).length
        ≤ (out.take (truncateAt out)).length := (prefix_dropTrailingSpaces _).length_le
      _ ≤ truncateAt out := List.length_take_le _ _
      _ ≤ maxNoteBytes := truncateAt_le out
  · exact not_lt.mp long

/-- The cut may expose spaces, and they are erased again. -/
theorem capNote_last {out : Bytes} (trimmed : out.getLast? ≠ some noteSpace) :
    (capNote out).getLast? ≠ some noteSpace := by
  rw [capNote]
  split_ifs
  · exact dropTrailingSpaces_last _
  · exact trimmed

/-- A capped note is still text. -/
theorem capNote_utf8 {out : Bytes} (text : IsUtf8 out) : IsUtf8 (capNote out) := by
  rw [capNote]
  split_ifs with long
  · exact dropTrailingSpaces_utf8 (take_truncateAt_utf8 text long)
  · exact text

/-! The sanitiser. -/

/-- A sanitised note is tidy. -/
theorem tidyNote_sanitiseNote (note : Bytes) : TidyNote (sanitiseNote note) := by
  -- Trimming and capping leave a part of the text without control bytes.
  have front : sanitiseNote note <+: trimSpaces (replaceControls 0 note) := capNote_prefix _
  have inside : sanitiseNote note <:+: replaceControls 0 note :=
    front.isInfix.trans ((prefix_dropTrailingSpaces _).isInfix.trans
      (List.dropWhile_suffix _).isInfix)
  constructor
  · exact capNote_length _
  · exact fun ch mem => replaceControls_visible 0 note ch (inside.subset mem)
  · exact fun separator listed found =>
      replaceControls_oneLine 0 note separator listed (found.trans inside)
  · exact head_of_prefix front (trimSpaces_head _)
  · exact capNote_last (dropTrailingSpaces_last _)

/-- A tidy note is its own sanitised form. -/
theorem sanitiseNote_of_tidy {note : Bytes} (tidy : TidyNote note) : sanitiseNote note = note := by
  rw [sanitiseNote, replaceControls_of_tidy tidy.visible tidy.oneLine,
    trimSpaces_of_tidy tidy.noLeadingSpace tidy.noTrailingSpace, capNote,
    if_neg (not_lt.mpr tidy.short)]

/-- Sanitising keeps UTF-8. -/
theorem sanitiseNote_utf8 {note : Bytes} (text : IsUtf8 note) : IsUtf8 (sanitiseNote note) := by
  obtain ⟨chars, rfl⟩ := text
  exact capNote_utf8 (trimSpaces_utf8 (replaceControls_utf8 chars))

/--
`SanitiseNote` is a normal form.

Its result is tidy and sanitised already, UTF-8 stays UTF-8, and a tidy text is left as it is.
-/
theorem sanitiseNote_normalForm (note : Bytes) :
    TidyNote (sanitiseNote note) ∧ sanitiseNote (sanitiseNote note) = sanitiseNote note ∧
      (IsUtf8 note → IsUtf8 (sanitiseNote note)) ∧ (IsUtf8 note → TidyNote note →
        sanitiseNote note = note) :=
  ⟨tidyNote_sanitiseNote note, sanitiseNote_of_tidy (tidyNote_sanitiseNote note), sanitiseNote_utf8,
    fun _ => sanitiseNote_of_tidy⟩

/-- A pasted block stays UTF-8. -/
theorem pastedNote_utf8 : IsUtf8 (sanitiseNote (bytes "a\r\nb")) :=
  (sanitiseNote_normalForm (bytes "a\r\nb")).2.2.1 ⟨"a\r\nb".toList, by decide⟩

/-- A pasted block is one line. -/
example : sanitiseNote (bytes "  a\r\nb\tc  ") = bytes "a b c" := by decide

end Loglib.AnchorManager
