import Mathlib
import Loglib.Basic.Bytes

/-! UTF-8 as a run of encoded characters: which bytes open one, and where a text may be cut. -/

namespace Loglib

/-- The bytes of some characters in UTF-8. -/
def utf8Bytes (chars : List Char) : Bytes := chars.flatMap String.utf8EncodeChar

/-- These bytes are the UTF-8 of some characters. -/
def IsUtf8 (text : Bytes) : Prop := ∃ chars, utf8Bytes chars = text

/-- `(b & 0xC0) == 0x80`: a byte inside a character. -/
def isContinuationByte (b : Byte) : Bool := b &&& 0xC0 == 0x80

/-- `(b & 0xC0) == 0xC0`: the byte that opens a character of more than one byte. -/
def isLeadByte (b : Byte) : Bool := b &&& 0xC0 == 0xC0

/-- The continuation bytes are those from `0x80` up to `0xBF`. -/
theorem isContinuationByte_iff (b : Byte) :
    isContinuationByte b = true ↔ 0x80 ≤ b.toNat ∧ b.toNat < 0xC0 := by
  revert b
  decide +kernel

/-- The lead bytes are those from `0xC0`. -/
theorem isLeadByte_iff (b : Byte) : isLeadByte b = true ↔ 0xC0 ≤ b.toNat := by
  revert b
  decide +kernel

/-- How a character is written: one byte below `0x80`, or a lead byte and continuation bytes that
its range says. -/
theorem utf8EncodeChar_cases (c : Char) :
    (∃ b : Byte, String.utf8EncodeChar c = [b] ∧ b.toNat < 0x80) ∨
      ∃ (lead : Byte) (rest : Bytes), String.utf8EncodeChar c = lead :: rest ∧ 0xC0 ≤ lead.toNat ∧
        rest ≠ [] ∧
        (∀ b ∈ rest, isContinuationByte b = true) ∧ (lead = 0xE2 → rest.length = 2) := by
  simp only [isContinuationByte_iff]
  unfold String.utf8EncodeChar
  dsimp only
  have small : c.val.toNat < 0x110000 := by
    have valid := c.valid
    simp only [UInt32.isValidChar, Nat.isValidChar] at valid
    omega
  -- The cases are those of the encoder, by the number of bytes.
  split
  · exact .inl ⟨_, rfl, by simp only [UInt8.toNat_ofNat']; omega⟩
  · right
    split
    · refine ⟨_, _, rfl, ?_, by simp, ?_, ?_⟩
      · simp only [UInt8.toNat_ofNat']
        omega
      · simp only [List.mem_singleton, forall_eq, UInt8.toNat_ofNat']
        omega
      · intro same
        have value := congrArg UInt8.toNat same
        simp only [UInt8.toNat_ofNat', UInt8.reduceToNat] at value
        omega
    · split
      · refine ⟨_, _, rfl, ?_, by simp, ?_, fun _ => rfl⟩
        · simp only [UInt8.toNat_ofNat']
          omega
        · simp only [List.mem_cons, List.not_mem_nil, or_false, forall_eq_or_imp, forall_eq,
            UInt8.toNat_ofNat']
          omega
      · refine ⟨_, _, rfl, ?_, by simp, ?_, ?_⟩
        · simp only [UInt8.toNat_ofNat']
          omega
        · simp only [List.mem_cons, List.not_mem_nil, or_false, forall_eq_or_imp, forall_eq,
            UInt8.toNat_ofNat']
          omega
        · intro same
          have value := congrArg UInt8.toNat same
          simp only [UInt8.toNat_ofNat', UInt8.reduceToNat] at value
          omega

/-- A character below `0x80` is one byte. -/
theorem utf8EncodeChar_of_small {c : Char} (small : c.toNat < 0x80) :
    String.utf8EncodeChar c = [UInt8.ofNat c.toNat] := by
  have value : c.val.toNat < 0x80 := small
  rw [String.utf8EncodeChar, if_pos (by omega)]
  rfl

/-- Only a character below `0x80` has no byte from there on. -/
theorem small_of_utf8EncodeChar {c : Char} (ascii : ∀ b ∈ String.utf8EncodeChar c, b.toNat < 0x80) :
    c.toNat < 0x80 := by
  by_contra large
  have value : ¬c.val.toNat ≤ 0x7f := fun le => large (Nat.lt_succ_of_le le)
  unfold String.utf8EncodeChar at ascii
  dsimp only at ascii
  -- A longer character opens with a byte from `0xC0` on.
  rw [if_neg value] at ascii
  split_ifs at ascii
  · have first := ascii _ List.mem_cons_self
    simp only [UInt8.toNat_ofNat'] at first
    omega
  · have first := ascii _ List.mem_cons_self
    simp only [UInt8.toNat_ofNat'] at first
    omega
  · have first := ascii _ List.mem_cons_self
    simp only [UInt8.toNat_ofNat'] at first
    omega

/-- A first character is encoded in front of the others. -/
theorem utf8Bytes_cons (c : Char) (chars : List Char) :
    utf8Bytes (c :: chars) = String.utf8EncodeChar c ++ utf8Bytes chars :=
  List.flatMap_cons

/-- Characters behind characters are encoded one after the other. -/
theorem utf8Bytes_append (before after : List Char) :
    utf8Bytes (before ++ after) = utf8Bytes before ++ utf8Bytes after :=
  List.flatMap_append

namespace IsUtf8

/-- The empty text. -/
theorem nil : IsUtf8 [] := ⟨[], rfl⟩

/-- A text behind a text. -/
theorem append {before after : Bytes} (first : IsUtf8 before) (second : IsUtf8 after) :
    IsUtf8 (before ++ after) := by
  obtain ⟨chars, rfl⟩ := first
  obtain ⟨others, rfl⟩ := second
  exact ⟨chars ++ others, utf8Bytes_append chars others⟩

/-- A byte below `0x80` is a character of its own. -/
theorem singleton {b : Byte} (small : b.toNat < 0x80) : IsUtf8 [b] := by
  -- The byte is its own code point, encoded in one byte.
  have valid : Nat.isValidChar b.toNat := by
    simp only [Nat.isValidChar]
    omega
  refine ⟨[Char.ofNatAux b.toNat valid], ?_⟩
  have value : (Char.ofNatAux b.toNat valid).val.toNat = b.toNat := by
    simp [Char.ofNatAux, UInt32.toNat]
  rw [utf8Bytes, List.flatMap_singleton, String.utf8EncodeChar]
  simp only [value]
  rw [if_pos (by omega), UInt8.ofNat_toNat]

/-- A text goes on behind a byte below `0x80`. -/
theorem tail {b : Byte} {rest : Bytes} (text : IsUtf8 (b :: rest)) (small : b.toNat < 0x80) :
    IsUtf8 rest := by
  obtain ⟨chars, written⟩ := text
  cases chars with
  | nil => cases written
  | cons c chars =>
    rw [utf8Bytes_cons] at written
    obtain ⟨only, shape, -⟩ | ⟨lead, others, shape, high, -⟩ := utf8EncodeChar_cases c
    · -- The byte is a whole character, and the rest is the characters after it.
      rw [shape] at written
      exact ⟨chars, (List.cons.inj written).2⟩
    · rw [shape] at written
      have same : lead = b := (List.cons.inj written).1
      rw [same] at high
      omega

/-- A text may be cut in front of every byte that does not continue a character. -/
theorem split {front back : Bytes} {b : Byte} (text : IsUtf8 (front ++ b :: back))
    (opens : isContinuationByte b = false) :
    IsUtf8 front ∧ IsUtf8 (b :: back) := by
  obtain ⟨chars, written⟩ := text
  -- The induction is on the characters, and the cut is either behind the first of them
  -- or at its start.
  induction chars generalizing front with
  | nil => simp [utf8Bytes] at written
  | cons c chars ih =>
    rw [utf8Bytes_cons, List.append_eq_append_iff] at written
    obtain ⟨more, rfl, others⟩ | ⟨mid, shape, rest⟩ := written
    · -- The first character lies in front of the cut.
      have later := ih others
      exact ⟨append ⟨[c], by simp [utf8Bytes]⟩ later.1, later.2⟩
    · cases front with
      | nil =>
        rw [List.nil_append] at shape
        exact ⟨nil, ⟨c :: chars, by rw [utf8Bytes_cons, shape, rest]⟩⟩
      | cons first front =>
        cases mid with
        | nil =>
          rw [List.append_nil] at shape
          exact ⟨⟨[c], by simp [utf8Bytes, shape]⟩, ⟨chars, rest.symm⟩⟩
        | cons inner mid =>
          -- A cut inside the first character is in front of a continuation byte.
          have same : b = inner := (List.cons.inj rest).1
          obtain ⟨only, written, -⟩ | ⟨lead, others, written, -, -, continues, -⟩ :=
            utf8EncodeChar_cases c
          · rw [written] at shape
            simp at shape
          · rw [written] at shape
            have inside : b ∈ others := by
              rw [(List.cons.inj shape).2, same]
              simp
            rw [continues b inside] at opens
            cases opens

/-- No text ends with a lead byte. -/
theorem last {front : Bytes} {b : Byte} (text : IsUtf8 (front ++ [b])) : isLeadByte b = false := by
  obtain ⟨chars, written⟩ := text
  rcases List.eq_nil_or_concat chars with rfl | ⟨before, c, rfl⟩
  · simp [utf8Bytes] at written
  · rw [List.concat_eq_append, utf8Bytes_append] at written
    have single : utf8Bytes [c] = String.utf8EncodeChar c := List.flatMap_singleton _ _
    rw [single] at written
    have ends := congrArg List.getLast? written
    rw [Bool.eq_false_iff, Ne, isLeadByte_iff, not_le]
    obtain ⟨only, shape, small⟩ | ⟨lead, others, shape, -, more, continues, -⟩ :=
      utf8EncodeChar_cases c
    · rw [shape, List.getLast?_concat, List.getLast?_concat, Option.some_inj] at ends
      rw [← ends]
      omega
    · -- The last byte of a long character is one of its continuation bytes.
      have inside : b ∈ others := by
        rw [shape, List.getLast?_append_of_ne_nil _ (by simp), List.getLast?_concat,
          List.getLast?_cons_of_ne_nil more] at ends
        exact List.mem_of_getLast? ends
      exact ((isContinuationByte_iff b).mp (continues b inside)).2

end IsUtf8

end Loglib
