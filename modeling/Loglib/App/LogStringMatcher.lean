import Loglib.Basic.Utf16Text
import Loglib.Basic.Utf8Text
import Loglib.App.LeafRuleCompile

/-! String matchers: the short cut on plain ASCII, and the match on what the user sees. -/

namespace Loglib

/-- The code units of a `QString`. Null and empty strings compare equal, so they are one. -/
abbrev CodeUnits := List UInt16

/-- The code units of a text: no surrogate stands alone. -/
def codeUnits (text : Utf16Text) : CodeUnits := text.units.map UInt16.ofNat

/-- ASCII bytes as code units. -/
def widen (bytes : Bytes) : CodeUnits := bytes.map UInt8.toUInt16

/-- What the matcher takes from Qt: `QString`, `QChar::isSpace` and `QRegularExpression`. -/
structure QtText where
  fromUtf8 : Bytes → CodeUnits
  toUtf8 : CodeUnits → Bytes
  isSpace : UInt16 → Bool
  replace : (before after : UInt16) → CodeUnits → CodeUnits
  simplified : CodeUnits → CodeUnits
  contains : (text needle : CodeUnits) → Bool
  isValidRegex : CodeUnits → Bool
  hasMatch : CodeUnits → CodeUnits → Bool
  wildcardToRegularExpression : CodeUnits → CodeUnits

/-- Runs of white space become one space where more text follows. -/
def collapseSpaces (isSpace : UInt16 → Bool) : (pending : Bool) → CodeUnits → CodeUnits
  | _, [] => []
  | pending, unit :: rest =>
    if isSpace unit then collapseSpaces isSpace true rest
    else if pending then 0x20 :: unit :: collapseSpaces isSpace false rest
    else unit :: collapseSpaces isSpace false rest

/-- What the documentation of Qt says about these functions. -/
structure QtText.Documented (qt : QtText) : Prop where
  fromUtf8_ascii : ∀ bytes : Bytes, (∀ b ∈ bytes, b.toNat < 0x80) → qt.fromUtf8 bytes = widen bytes
  toUtf8_text : ∀ text : Utf16Text, qt.toUtf8 (codeUnits text) = utf8Bytes text.chars
  isSpace_ascii : ∀ unit : UInt16, unit.toNat < 0x80 →
    (qt.isSpace unit = true ↔ unit.toNat = 0x20 ∨ 9 ≤ unit.toNat ∧ unit.toNat ≤ 13)
  replace_eq : ∀ before after units,
    qt.replace before after units = units.map fun unit => if unit = before then after else unit
  -- White space goes from both ends, and each run of it inside becomes one space.
  simplified_eq : ∀ units,
    qt.simplified units = collapseSpaces qt.isSpace false (units.dropWhile qt.isSpace)
  contains_iff : ∀ text needle, qt.contains text needle = true ↔ needle <:+: text

namespace LogModel

/-- `ConvertToSingleLineCompactQString`. -/
def convertToSingleLineCompactQString (qt : QtText) (bytes : Bytes) : CodeUnits :=
  qt.simplified (qt.replace 13 0x20 (qt.replace 10 0x20 (qt.fromUtf8 bytes)))

/-- The loop of `IsSingleLineAsciiTrim`. -/
def scanAscii : (prevSpace : Bool) → Bytes → Bool
  | _, [] => true
  | prevSpace, c :: rest =>
    if 0x80 ≤ c then false
    else if c = 0x20 then
      if prevSpace then false else scanAscii true rest
    else if c < 0x20 ∨ c = 0x7F then false
    else scanAscii false rest

/-- `IsSingleLineAsciiTrim`. -/
def isSingleLineAsciiTrim (bytes : Bytes) : Bool :=
  if bytes.head?.any (· ≤ 0x20) then false
  else if bytes.getLast?.any (· ≤ 0x20) then false
  else scanAscii false bytes

end LogModel

open LogModel

/-- `HaystackQStringFast`. -/
def haystackQStringFast (qt : QtText) (bytes : Bytes) : CodeUnits :=
  if isSingleLineAsciiTrim bytes then qt.fromUtf8 bytes
    else convertToSingleLineCompactQString qt bytes

/-- `std::string_view::contains`: the needle is a run of the haystack. -/
def containsRun (haystack needle : Bytes) : Bool := decide (needle <:+: haystack)

/-- `MakeStringMatcher`. -/
def makeStringMatcher (qt : QtText) (pattern : CodeUnits) : LeafRuleMatch → Bytes → Bool
  | .exactly =>
    let patternBytes := qt.toUtf8 pattern
    if isSingleLineAsciiTrim patternBytes then fun bytes =>
      if isSingleLineAsciiTrim bytes then bytes == patternBytes
      else convertToSingleLineCompactQString qt bytes == pattern
    else fun bytes => convertToSingleLineCompactQString qt bytes == pattern
  | .contains =>
    let patternBytes := qt.toUtf8 pattern
    if isSingleLineAsciiTrim patternBytes then fun bytes =>
      if isSingleLineAsciiTrim bytes then containsRun bytes patternBytes
      else qt.contains (convertToSingleLineCompactQString qt bytes) pattern
    else fun bytes => qt.contains (convertToSingleLineCompactQString qt bytes) pattern
  | .regularExpression =>
    -- An invalid expression matches nothing.
    if qt.isValidRegex pattern then fun bytes => qt.hasMatch pattern (haystackQStringFast qt bytes)
      else fun _ => false
  | .wildcard =>
    fun bytes => qt.hasMatch (qt.wildcardToRegularExpression pattern) (haystackQStringFast qt bytes)

/-- The match applied to a text as it is. -/
def plainMatch (qt : QtText) (pattern : CodeUnits) : LeafRuleMatch → CodeUnits → Bool
  | .exactly, text => text == pattern
  | .contains, text => qt.contains text pattern
  | .regularExpression, text => qt.isValidRegex pattern && qt.hasMatch pattern text
  | .wildcard, text => qt.hasMatch (qt.wildcardToRegularExpression pattern) text

/-! The short cut. -/

/-- Different bytes are different code units. -/
theorem widen_injective : Function.Injective widen :=
  List.map_injective_iff.mpr fun first second same => by
  have values := congrArg UInt16.toNat same
  simpa [UInt8.toNat_inj] using values

/-- Bytes that pass the loop are printable ASCII. -/
theorem printable_of_scanAscii {prevSpace : Bool} {bytes : Bytes}
    (passes : scanAscii prevSpace bytes = true) :
    ∀ b ∈ bytes, 0x20 ≤ b.toNat ∧ b.toNat < 0x7F := by
  induction bytes generalizing prevSpace with
  | nil => simp
  | cons c rest ih =>
    rw [scanAscii] at passes
    split_ifs at passes with high space doubled control
    · exact List.forall_mem_cons.mpr ⟨by rw [space]; decide, ih passes⟩
    · refine List.forall_mem_cons.mpr ⟨?_, ih passes⟩
      -- What is left is neither high, nor a control byte, nor DEL.
      rw [not_or] at control
      simp only [UInt8.le_iff_toNat_le, UInt8.lt_iff_toNat_lt, ← UInt8.toNat_inj,
        UInt8.reduceToNat] at high space control
      omega

/-- Bytes that pass the test pass its loop, and neither begin nor end with a space or a
control byte. -/
theorem scanAscii_of_trim {bytes : Bytes} (trim : isSingleLineAsciiTrim bytes = true) :
    scanAscii false bytes = true ∧ bytes.head?.any (· ≤ 0x20) = false ∧ bytes.getLast?.any
      (· ≤ 0x20) = false := by
  rw [isSingleLineAsciiTrim] at trim
  split_ifs at trim with first last
  exact ⟨trim, Bool.eq_false_iff.mpr first, Bool.eq_false_iff.mpr last⟩

/-- A text whose UTF-8 is plain ASCII is this ASCII. -/
theorem codeUnits_of_ascii (text : Utf16Text) (ascii : ∀ b ∈ utf8Bytes text.chars, b.toNat < 0x80) :
    codeUnits text = widen (utf8Bytes text.chars) := by
  obtain ⟨chars⟩ := text
  induction chars with
  | nil => rfl
  | cons c chars ih =>
    rw [utf8Bytes_cons] at ascii ⊢
    -- Its first character is ASCII, one byte and one unit.
    have small : c.toNat < 0x80 :=
      small_of_utf8EncodeChar fun b mem => ascii b (List.mem_append_left _ mem)
    have rest := ih fun b mem => ascii b (List.mem_append_right _ mem)
    rw [codeUnits, Utf16Text.units] at rest ⊢
    have one : Utf16Text.charUnits c = [c.toNat] := if_pos (by omega)
    rw [List.flatMap_cons, one, List.map_append, rest, utf8EncodeChar_of_small small, widen, widen,
      List.map_append]
    congr 1
    simp only [List.map_cons, List.map_nil, List.cons.injEq, and_true, ← UInt16.toNat_inj,
      UInt8.toNat_toUInt16,
      UInt16.toNat_ofNat', UInt8.toNat_ofNat']
    omega

section Documented

variable {qt : QtText} (documented : qt.Documented)
include documented

/-- Of printable ASCII, the space alone is white space. -/
theorem isSpace_printable {b : Byte} (printable : 0x20 ≤ b.toNat ∧ b.toNat < 0x7F) :
    qt.isSpace b.toUInt16 = true ↔ b = 0x20 := by
  have value : b.toUInt16.toNat = b.toNat := UInt8.toNat_toUInt16 b
  rw [documented.isSpace_ascii _ (by omega), value, ← UInt8.toNat_inj]
  simp only [UInt8.reduceToNat]
  omega

/-- A run of bytes is a run of their code units. -/
theorem contains_widen (haystack needle : Bytes) :
    qt.contains (widen haystack) (widen needle) = containsRun haystack needle := by
  rw [containsRun, Bool.eq_iff_iff, documented.contains_iff, decide_eq_true_iff]
  refine ⟨fun inside => ?_, fun inside => inside.map _⟩
  obtain ⟨run, inHaystack, same⟩ := List.infix_map_iff.mp inside
  rw [widen_injective same]
  exact inHaystack

/-- Text with single spaces, and none at its end, does not collapse. -/
theorem collapseSpaces_widen {bytes : Bytes} {pending : Bool}
    (passes : scanAscii pending bytes = true)
    (ends : bytes.getLast?.any (· ≤ 0x20) = false) (follows : pending = true → bytes ≠ []) :
    collapseSpaces qt.isSpace pending (widen bytes) = if pending then 0x20 :: widen bytes
      else widen bytes := by
  induction bytes generalizing pending with
  | nil =>
    cases pending with
    | false => rfl
    | true => exact absurd rfl (follows rfl)
  | cons c rest ih =>
    have printable := printable_of_scanAscii passes c List.mem_cons_self
    have space := isSpace_printable documented printable
    have later : rest ≠ [] → rest.getLast?.any (· ≤ 0x20) = false := fun more => by
      rwa [List.getLast?_cons_of_ne_nil more] at ends
    rw [scanAscii] at passes
    rw [widen, List.map_cons, collapseSpaces]
    split_ifs at passes with high isSpace doubled control
    · -- The space waits for what follows it, and something does.
      have more : rest ≠ [] := by
        rintro rfl
        rw [isSpace] at ends
        exact absurd ends (by decide)
      rw [if_pos (space.mpr isSpace)]
      have collapsed := ih passes (later more) fun _ => more
      rw [Bool.eq_false_iff.mpr doubled, isSpace]
      exact collapsed
    · rw [if_neg fun is => isSpace (space.mp is)]
      have ends' : rest.getLast?.any (· ≤ 0x20) = false := by
        cases rest with
        | nil => rfl
        | cons next rest => exact later (List.cons_ne_nil _ _)
      have collapsed := ih passes ends' fun is => absurd is Bool.false_ne_true
      rw [widen, if_neg Bool.false_ne_true] at collapsed
      rw [collapsed]

/-- The conversion leaves such bytes unchanged. -/
theorem convertToSingleLine_of_trim {bytes : Bytes} (trim : isSingleLineAsciiTrim bytes = true) :
    convertToSingleLineCompactQString qt bytes = widen bytes := by
  obtain ⟨passes, starts, ends⟩ := scanAscii_of_trim trim
  have printable := printable_of_scanAscii passes
  have decoded : qt.fromUtf8 bytes = widen bytes :=
    documented.fromUtf8_ascii bytes fun b mem => (printable b mem).2.trans (by decide)
  -- No byte is a line end, so nothing is replaced.
  have untouched (before : UInt16) (control : before.toNat < 0x20) : qt.replace before 0x20
      (widen bytes) = widen bytes := by
    rw [documented.replace_eq]
    refine (List.map_congr_left fun unit mem => if_neg ?_).trans (List.map_id _)
    rintro rfl
    obtain ⟨b, inBytes, same⟩ := List.mem_map.mp mem
    have value := congrArg UInt16.toNat same
    rw [UInt8.toNat_toUInt16] at value
    have := (printable b inBytes).1
    omega
  rw [convertToSingleLineCompactQString, decoded, untouched 10 (by decide),
    untouched 13 (by decide), documented.simplified_eq]
  have front : (widen bytes).dropWhile qt.isSpace = widen bytes := by
    cases bytes with
    | nil => rfl
    | cons c rest =>
      refine List.dropWhile_cons_of_neg fun is => ?_
      have space := (isSpace_printable documented (printable c List.mem_cons_self)).mp is
      rw [space] at starts
      simp at starts
  rw [front, collapseSpaces_widen documented passes ends fun is => absurd is Bool.false_ne_true,
    if_neg Bool.false_ne_true]

/-- A fast haystack is the converted text. -/
theorem haystackQStringFast_eq (bytes : Bytes) :
    haystackQStringFast qt bytes = convertToSingleLineCompactQString qt bytes := by
  rw [haystackQStringFast]
  -- The fast path only takes texts that the conversion would leave as they are.
  split_ifs with trim
  · obtain ⟨passes, -⟩ := scanAscii_of_trim trim
    have ascii : ∀ b ∈ bytes, b.toNat < 0x80 :=
      fun b mem => (printable_of_scanAscii passes b mem).2.trans (by decide)
    rw [convertToSingleLine_of_trim documented trim, documented.fromUtf8_ascii bytes ascii]
  · rfl

/--
The short cut of the matcher agrees with the plain match.

For every text as pattern, every kind of match and all bytes, the matcher answers as the match does
on the converted text. Bytes that pass the test of the short cut are left unchanged by the
conversion. -/
theorem makeStringMatcher_eq (text : Utf16Text) (kind : LeafRuleMatch) (bytes : Bytes) :
    makeStringMatcher qt (codeUnits text) kind bytes =
        plainMatch qt (codeUnits text) kind (convertToSingleLineCompactQString qt bytes) ∧
      (isSingleLineAsciiTrim bytes = true →
      convertToSingleLineCompactQString qt bytes = widen bytes) := by
  refine ⟨?_, convertToSingleLine_of_trim documented⟩
  -- A pattern that passes the test is ASCII.
  have pattern (trim : isSingleLineAsciiTrim (qt.toUtf8 (codeUnits text)) = true) :
      codeUnits text = widen (qt.toUtf8 (codeUnits text)) := by
    rw [documented.toUtf8_text] at trim ⊢
    obtain ⟨passes, -⟩ := scanAscii_of_trim trim
    exact codeUnits_of_ascii text fun b mem =>
      (printable_of_scanAscii passes b mem).2.trans (by decide)
  cases kind with
  | exactly =>
    simp only [makeStringMatcher, plainMatch]
    generalize qt.toUtf8 (codeUnits text) = patternBytes at pattern ⊢
    split_ifs with patternTrim
    · beta_reduce
      split_ifs with trim
      · -- Both sides are plain, so bytes are compared as code units are.
        rw [convertToSingleLine_of_trim documented trim, pattern patternTrim, Bool.eq_iff_iff,
          beq_iff_eq, beq_iff_eq,
          widen_injective.eq_iff]
      · rfl
    · rfl
  | contains =>
    simp only [makeStringMatcher, plainMatch]
    generalize qt.toUtf8 (codeUnits text) = patternBytes at pattern ⊢
    split_ifs with patternTrim
    · beta_reduce
      split_ifs with trim
      · rw [convertToSingleLine_of_trim documented trim, pattern patternTrim,
          contains_widen documented]
      · rfl
    · rfl
  | regularExpression =>
    rw [makeStringMatcher, plainMatch]
    split_ifs with valid
    · beta_reduce
      rw [haystackQStringFast_eq documented, valid, Bool.true_and]
    · rw [Bool.eq_false_iff.mpr valid, Bool.false_and]
  | wildcard =>
    rw [makeStringMatcher, plainMatch]
    beta_reduce
    rw [haystackQStringFast_eq documented]

end Documented

/-! Patterns that are no text. -/

/-- A code unit without a partner: Qt writes a question mark for half a surrogate pair. -/
def encodeUnit (unit : UInt16) : Bytes :=
  if 0xD800 ≤ unit ∧ unit < 0xE000 then [ascii '?']
    else String.utf8EncodeChar (Char.ofNat unit.toNat)

/-- `QString::toUtf8`. -/
def encodeUnits : CodeUnits → Bytes
  | [] => []
  | [unit] => encodeUnit unit
  | high :: low :: rest =>
    if (0xD800 ≤ high ∧ high < 0xDC00) ∧ 0xDC00 ≤ low ∧ low < 0xE000 then
      String.utf8EncodeChar (Char.ofNat (0x10000 + (high.toNat - 0xD800) * 0x400 +
        (low.toNat - 0xDC00))) ++ encodeUnits rest
    else encodeUnit high ++ encodeUnits (low :: rest)

/-- A unit that opens no pair is written by itself. -/
theorem encodeUnits_cons {unit : UInt16} (single : ¬(0xD800 ≤ unit ∧ unit < 0xDC00))
    (rest : CodeUnits) :
    encodeUnits (unit :: rest) = encodeUnit unit ++ encodeUnits rest := by
  cases rest with
  | nil => simp [encodeUnits]
  | cons low rest => rw [encodeUnits, if_neg fun pair => single pair.1]

/-- A text is written as its characters are. -/
theorem encodeUnits_codeUnits (text : Utf16Text) :
    encodeUnits (codeUnits text) = utf8Bytes text.chars := by
  obtain ⟨chars⟩ := text
  induction chars with
  | nil => rfl
  | cons c chars ih =>
    have valid : c.toNat < 0xD800 ∨ 0xDFFF < c.toNat ∧ c.toNat < 0x110000 := c.valid
    rw [codeUnits, Utf16Text.units] at ih ⊢
    rw [List.flatMap_cons, List.map_append, utf8Bytes_cons, Utf16Text.charUnits]
    split_ifs with small
    · -- One unit, and no surrogate.
      have value : (UInt16.ofNat c.toNat).toNat = c.toNat := by simpa using small
      have apart (low high : UInt16) (bounds : low.toNat = 0xD800 ∧ high.toNat ≤ 0xE000) :
          ¬(low ≤ UInt16.ofNat c.toNat ∧ UInt16.ofNat c.toNat < high) := by
        rw [UInt16.le_iff_toNat_le, UInt16.lt_iff_toNat_lt, value]
        omega
      rw [List.map_cons, List.map_nil, List.singleton_append,
        encodeUnits_cons (apart _ _ (by decide)), ih, encodeUnit,
        if_neg (apart _ _ (by decide)), value, Char.ofNat_toNat]
    · -- A pair, which is read together.
      have high : (UInt16.ofNat (0xD800 + (c.toNat - 0x10000) / 0x400)).toNat = 0xD800 +
          (c.toNat - 0x10000) / 0x400 := by
        simp only [UInt16.toNat_ofNat']
        omega
      have low : (UInt16.ofNat (0xDC00 + (c.toNat - 0x10000) % 0x400)).toNat = 0xDC00 +
          (c.toNat - 0x10000) % 0x400 := by
        simp only [UInt16.toNat_ofNat']
        omega
      have char : Char.ofNat (0x10000 + (0xD800 + (c.toNat - 0x10000) / 0x400 - 0xD800) * 0x400 +
          (0xDC00 + (c.toNat - 0x10000) % 0x400 - 0xDC00)) = c := by
        have joined : 0x10000 + (0xD800 + (c.toNat - 0x10000) / 0x400 - 0xD800) * 0x400 +
            (0xDC00 + (c.toNat - 0x10000) % 0x400 - 0xDC00) = c.toNat := by omega
        rw [joined, Char.ofNat_toNat]
      rw [List.map_cons, List.map_cons, List.map_nil, List.cons_append, List.cons_append,
        List.nil_append, encodeUnits, if_pos,
        ih, high, low, char]
      simp only [UInt16.le_iff_toNat_le, UInt16.lt_iff_toNat_lt, high, low, UInt16.reduceToNat]
      omega

/-- A Qt that knows ASCII, and matches expressions as plain text. -/
def asciiQt : QtText where
  fromUtf8 := widen
  toUtf8 := encodeUnits
  isSpace unit := unit == 0x20 || decide (9 ≤ unit ∧ unit ≤ 13)
  replace before after units := units.map fun unit => if unit = before then after else unit
  simplified units :=
    let isSpace (unit : UInt16) := unit == 0x20 || decide (9 ≤ unit ∧ unit ≤ 13)
    collapseSpaces isSpace false (units.dropWhile isSpace)
  contains text needle := decide (needle <:+: text)
  isValidRegex _ := true
  hasMatch pattern text := decide (pattern <:+: text)
  wildcardToRegularExpression pattern := pattern

/-- This Qt does what the documentation says. -/
theorem asciiQt_documented : asciiQt.Documented where
  fromUtf8_ascii _ _ := rfl
  toUtf8_text := encodeUnits_codeUnits
  -- On ASCII the blanks are those that Qt documents.
  isSpace_ascii unit small := by
    simp [asciiQt, ← UInt16.toNat_inj, UInt16.le_iff_toNat_le]
  replace_eq _ _ _ := rfl
  simplified_eq _ := rfl
  contains_iff _ _ := decide_eq_true_iff

/-- Plain bytes that contain a plain pattern. -/
theorem plainBytes_match :
    makeStringMatcher asciiQt (codeUnits (.ofString "low")) .contains (bytes "slow start") =
      plainMatch asciiQt (codeUnits (.ofString "low")) .contains
        (convertToSingleLineCompactQString asciiQt (bytes "slow start")) :=
  (makeStringMatcher_eq asciiQt_documented (.ofString "low") .contains (bytes "slow start")).1

/-- Half a surrogate pair is matched by a question mark, which it is not equal to. -/
theorem loneSurrogate_matches :
    makeStringMatcher asciiQt [0xD800] .exactly (bytes "?") = true ∧
      plainMatch asciiQt [0xD800] .exactly
        (convertToSingleLineCompactQString asciiQt (bytes "?")) = false := by
  decide +kernel

end Loglib
