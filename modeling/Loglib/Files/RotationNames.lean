import Loglib.Files.RotationSiblings

/-! The names of rotated files: what the patterns describe, and that the readings of one
name agree. -/

namespace Loglib

/-- A compression suffix with its dot. -/
def compressSuffixes : List Bytes := [bytes ".gz", bytes ".bz2", bytes ".xz", bytes ".zst"]

/-- What may stand behind a number or a date. -/
def IsTail (text : Bytes) : Prop := text = [] ∨ text ∈ compressSuffixes

/-- `\d{4}-\d{2}-\d{2}`. -/
def IsDate (text : Bytes) : Prop :=
  ∃ year month day : Bytes, year.length = 4 ∧ month.length = 2 ∧ day.length = 2 ∧
    (∀ byte ∈ year ++ month ++ day, isDigit byte = true) ∧
      text = year ++ bytes "-" ++ month ++ bytes "-" ++ day

/-- A name without the line breaks that a dot of an expression stops at. -/
def OneLine (text : Bytes) : Prop := ∀ byte ∈ text, isDot byte = true

/-- `<stem>.<N>` with a number in range, compressed or not. -/
def NumberedOf (stem name : Bytes) : Prop :=
  ∃ number tail, number ≠ [] ∧ (∀ byte ∈ number, isDigit byte = true) ∧
    acceptedSuffix number = true ∧ IsTail tail ∧
    name = stem ++ bytes "." ++ number ++ tail

/-- `<stem>-<date>`, compressed or not. -/
def DatedOf (stem name : Bytes) : Prop :=
  ∃ separator day tail, isDateSeparator separator = true ∧ IsDate day ∧ IsTail tail ∧
    name = stem ++ [separator] ++ day ++ tail

/-- `<stem>-<date>.<extension>`, compressed or not. -/
def InfixOf (stem extension name : Bytes) : Prop :=
  ∃ separator day tail, isDateSeparator separator = true ∧ IsDate day ∧ IsTail tail ∧
    name = stem ++ [separator] ++ day ++ bytes "." ++ extension ++ tail

section Language

/-- Digits, as many as asked for. -/
theorem matches_digits {count : Nat} {text : Bytes} {groups : List Bytes} :
    (digits count).Matches text groups ↔
      text.length = count ∧ (∀ byte ∈ text, isDigit byte = true) ∧ groups = [] := by
  induction count generalizing text groups with
  -- No digits are asked for, so only the empty text fits.
  | zero =>
    have unfolded : (digits 0).Matches text groups ↔ text = [] ∧ groups = [] := Iff.rfl
    rw [unfolded, List.length_eq_zero_iff]
    constructor
    · rintro ⟨rfl, rfl⟩
      simp
    · rintro ⟨rfl, -, rfl⟩
      exact ⟨rfl, rfl⟩
  -- The first byte is a digit, and the rest is as long as it has to be.
  | succ count ih =>
    have unfolded : (digits (count + 1)).Matches text groups ↔ ∃ front behind early late,
        (Pattern.item isDigit).Matches front early ∧ (digits count).Matches behind late ∧
          text = front ++ behind ∧
          groups = early ++ late := Iff.rfl
    rw [unfolded]
    simp only [ih, Pattern.Matches]
    constructor
    · rintro ⟨_, behind, _, _, ⟨own, digit, rfl, rfl⟩, ⟨rfl, all_, rfl⟩, rfl, rfl⟩
      exact ⟨by simp, by simpa using ⟨digit, all_⟩, rfl⟩
    · rintro ⟨size, all_, rfl⟩
      obtain ⟨own, behind, rfl⟩ := List.exists_cons_of_length_eq_add_one size
      exact ⟨[own], behind, [], [], ⟨own, all_ own List.mem_cons_self, rfl, rfl⟩,
        ⟨Nat.succ.inj size, fun byte member => all_ byte (List.mem_cons_of_mem own member), rfl⟩,
        rfl, rfl⟩

/-- The tails. -/
theorem matches_compressTail {text : Bytes} {groups : List Bytes} :
    compressTail.Matches text groups ↔ IsTail text ∧ groups = [] := by
  have unfolded : compressTail.Matches text groups ↔
      (∃ front behind early late, (Pattern.literal (bytes ".")).Matches front early ∧
        ((Pattern.literal (bytes "gz")).Matches behind late ∨
          (Pattern.literal (bytes "bz2")).Matches behind late ∨
          (Pattern.literal (bytes "xz")).Matches behind late ∨
            (Pattern.literal (bytes "zst")).Matches behind late) ∧
        text = front ++ behind ∧ groups = early ++ late) ∨ (text = [] ∧ groups = []) := Iff.rfl
  -- A dot and one of the four codecs is one of the suffixes.
  have joined (codec : String) (listed : bytes "." ++ bytes codec ∈ compressSuffixes) :
      IsTail (bytes "." ++ bytes codec) := .inr listed
  rw [unfolded]
  simp only [Pattern.matches_literal]
  -- Read: the suffix is one of the four, or missing.
  constructor
  · rintro (⟨_, _, _, _, ⟨rfl, rfl⟩, codec, rfl, rfl⟩ | ⟨rfl, rfl⟩)
    · obtain ⟨rfl, rfl⟩ | ⟨rfl, rfl⟩ | ⟨rfl, rfl⟩ | ⟨rfl, rfl⟩ := codec
      · exact ⟨joined "gz" (by decide), rfl⟩
      · exact ⟨joined "bz2" (by decide), rfl⟩
      · exact ⟨joined "xz" (by decide), rfl⟩
      · exact ⟨joined "zst" (by decide), rfl⟩
    · exact ⟨.inl rfl, rfl⟩
  · -- Written: each of the four is a dot and its codec.
    rintro ⟨rfl | listed, rfl⟩
    · exact .inr ⟨rfl, rfl⟩
    · refine .inl ?_
      simp only [compressSuffixes, List.mem_cons, List.not_mem_nil, or_false] at listed
      obtain rfl | rfl | rfl | rfl := listed
      · exact ⟨bytes ".", bytes "gz", [], [], ⟨rfl, rfl⟩, .inl ⟨rfl, rfl⟩, by decide, rfl⟩
      · exact ⟨bytes ".", bytes "bz2", [], [], ⟨rfl, rfl⟩, .inr (.inl ⟨rfl, rfl⟩), by decide, rfl⟩
      · exact ⟨bytes ".", bytes "xz", [], [], ⟨rfl, rfl⟩, .inr (.inr (.inl ⟨rfl, rfl⟩)),
          by decide, rfl⟩
      · exact ⟨bytes ".", bytes "zst", [], [], ⟨rfl, rfl⟩, .inr (.inr (.inr ⟨rfl, rfl⟩)),
          by decide, rfl⟩

/-- Digits and dashes make a date. -/
theorem isDate_of_digits {year month day : Bytes} {groups others more : List Bytes}
    (yearRead : (digits 4).Matches year groups) (monthRead : (digits 2).Matches month others)
    (dayRead : (digits 2).Matches day more) :
    IsDate (year ++ (bytes "-" ++ (month ++ (bytes "-" ++ (day ++ []))))) := by
  obtain ⟨yearSize, yearDigits, -⟩ := matches_digits.mp yearRead
  obtain ⟨monthSize, monthDigits, -⟩ := matches_digits.mp monthRead
  obtain ⟨daySize, dayDigits, -⟩ := matches_digits.mp dayRead
  -- Four, two and two digits with dashes between.
  refine ⟨year, month, day, yearSize, monthSize, daySize, ?_, by simp⟩
  intro byte member
  simp only [List.mem_append] at member
  obtain (early | middle) | late := member
  · exact yearDigits byte early
  · exact monthDigits byte middle
  · exact dayDigits byte late

/-- A date without groups. -/
theorem matches_date_id {text : Bytes} {groups : List Bytes} :
    (date id).Matches text groups ↔ IsDate text ∧ groups = [] := by
  unfold date
  simp only [id_eq, Pattern.matches_sequence_cons, Pattern.matches_sequence_nil,
    Pattern.matches_literal]
  -- Read: year, month and day are runs of digits with dashes between them.
  constructor
  · rintro ⟨year, _, _, _, yearRead,
      ⟨_, _, _, _, ⟨rfl, rfl⟩, ⟨month, _, _, _, monthRead, ⟨_, _, _, _, ⟨rfl, rfl⟩,
      ⟨day, _, _, _, dayRead, ⟨rfl, rfl⟩, rfl, rfl⟩, rfl, rfl⟩, rfl, rfl⟩, rfl, rfl⟩, rfl, rfl⟩
    refine ⟨isDate_of_digits yearRead monthRead dayRead, ?_⟩
    simp [(matches_digits.mp yearRead).2.2, (matches_digits.mp monthRead).2.2,
      (matches_digits.mp dayRead).2.2]
  · -- Written: the digits of the three parts are digits of the whole.
    rintro ⟨⟨year, month, day, yearSize, monthSize, daySize, all_, rfl⟩, rfl⟩
    have yearDigits : ∀ byte ∈ year, isDigit byte = true :=
      fun byte member => all_ byte (by simp [member])
    have monthDigits : ∀ byte ∈ month, isDigit byte = true :=
      fun byte member => all_ byte (by simp [member])
    have dayDigits : ∀ byte ∈ day, isDigit byte = true :=
      fun byte member => all_ byte (by simp [member])
    exact ⟨year, _, [], _, matches_digits.mpr ⟨yearSize, yearDigits, rfl⟩,
      ⟨_, _, [], _, ⟨rfl, rfl⟩, ⟨month, _, [],
      _, matches_digits.mpr ⟨monthSize, monthDigits, rfl⟩,
      ⟨_, _, [], _, ⟨rfl, rfl⟩, ⟨day, [], [], [],
      matches_digits.mpr ⟨daySize, dayDigits, rfl⟩, ⟨rfl, rfl⟩, rfl, rfl⟩, rfl, rfl⟩, rfl, rfl⟩,
      rfl, rfl⟩, by simp,
      rfl⟩

/-- The groups do not change what a date describes. -/
theorem isDate_of_matches_group {text : Bytes} {groups : List Bytes}
    (described : (date .group).Matches text groups) :
    IsDate text := by
  unfold date at described
  simp only [Pattern.matches_sequence_cons, Pattern.matches_sequence_nil,
    Pattern.matches_literal] at described
  -- The match is taken apart group by group.
  obtain ⟨year, _, _, _, ⟨_, yearRead, rfl⟩,
    ⟨_, _, _, _, ⟨rfl, rfl⟩, ⟨month, _, _, _, ⟨_, monthRead, rfl⟩,
    ⟨_, _, _, _, ⟨rfl, rfl⟩, ⟨day, _, _, _, ⟨_, dayRead, rfl⟩, ⟨rfl, rfl⟩, rfl, -⟩, rfl, -⟩, rfl,
    -⟩, rfl, -⟩,
    rfl, -⟩ := described
  exact isDate_of_digits yearRead monthRead dayRead

/-- What `NUMBERED_TAILING` describes. -/
theorem matches_numberedTailing {name : Bytes} {groups : List Bytes} :
    numberedTailing.Matches name groups ↔
      ∃ stem number tail, stem ≠ [] ∧ OneLine stem ∧ number ≠ [] ∧
        (∀ byte ∈ number, isDigit byte = true) ∧
        IsTail tail ∧ name = stem ++ bytes "." ++ number ++ tail ∧ groups = [stem, number] := by
  unfold numberedTailing
  simp only [Pattern.matches_sequence_cons, Pattern.matches_sequence_nil, Pattern.matches_literal,
    matches_compressTail]
  -- Read: the stem and the number are the two groups, and a suffix follows.
  constructor
  · rintro ⟨stem, _, _, _, ⟨_, ⟨some_, all_, rfl⟩, rfl⟩, ⟨_, _, _, _, ⟨rfl, rfl⟩, ⟨number, _, _, _,
      ⟨_, ⟨someNumber, digits_, rfl⟩, rfl⟩, ⟨tail, _, _, _, ⟨isTail, rfl⟩, ⟨rfl, rfl⟩, rfl, rfl⟩,
      rfl, rfl⟩, rfl,
      rfl⟩, rfl, rfl⟩
    exact ⟨stem, number, tail, some_, all_, someNumber, digits_, isTail, by simp, rfl⟩
  · -- Written: the parts are put behind each other again.
    rintro ⟨stem, number, tail, some_, all_, someNumber, digits_, isTail, rfl, rfl⟩
    exact ⟨stem, _, [stem], _, ⟨[], ⟨some_, all_, rfl⟩, rfl⟩,
      ⟨_, _, [], _, ⟨rfl, rfl⟩, ⟨number, _, [number], _,
      ⟨[], ⟨someNumber, digits_, rfl⟩, rfl⟩, ⟨tail, [], [], [], ⟨isTail, rfl⟩, ⟨rfl, rfl⟩, rfl,
      rfl⟩, rfl, rfl⟩,
      rfl, rfl⟩, by simp, rfl⟩

/-- What `DATED_TAILING` describes. -/
theorem matches_datedTailing {name : Bytes} {groups : List Bytes} :
    datedTailing.Matches name groups ↔
      ∃ stem, stem ≠ [] ∧ OneLine stem ∧ DatedOf stem name ∧ groups = [stem] := by
  unfold datedTailing
  simp only [Pattern.matches_sequence_cons, Pattern.matches_sequence_nil, matches_compressTail,
    matches_date_id]
  -- Read: the stem is the only group; the day and the suffix are not kept.
  constructor
  · rintro ⟨stem, _, _, _, ⟨_, ⟨some_, all_, rfl⟩, rfl⟩,
      ⟨_, _, _, _, ⟨separator, isSeparator, rfl, rfl⟩,
      ⟨day, _, _, _, ⟨isDate, rfl⟩, ⟨tail, _, _, _, ⟨isTail, rfl⟩, ⟨rfl, rfl⟩, rfl, rfl⟩, rfl, rfl⟩,
      rfl, rfl⟩, rfl,
      rfl⟩
    exact ⟨stem, some_, all_, ⟨separator, day, tail, isSeparator, isDate, isTail, by simp⟩, rfl⟩
  · -- Written: the separator stands between the stem and the day.
    rintro ⟨stem, some_, all_, ⟨separator, day, tail, isSeparator, isDate, isTail, rfl⟩, rfl⟩
    exact ⟨stem, _, [stem], _, ⟨[], ⟨some_, all_, rfl⟩, rfl⟩,
      ⟨_, _, [], _, ⟨separator, isSeparator, rfl, rfl⟩,
      ⟨day, _, [], _, ⟨isDate, rfl⟩, ⟨tail, [], [], [], ⟨isTail, rfl⟩, ⟨rfl, rfl⟩, rfl, rfl⟩, rfl,
      rfl⟩, rfl, rfl⟩,
      by simp, rfl⟩

/-- What `DATED_INFIX` describes. -/
theorem matches_datedInfix {name : Bytes} {groups : List Bytes} :
    datedInfix.Matches name groups ↔
      ∃ stem extension, stem ≠ [] ∧ OneLine stem ∧ extension ≠ [] ∧
        (∀ byte ∈ extension, isAlphanumeric byte = true) ∧ InfixOf stem extension name ∧
        groups = [stem, extension] := by
  unfold datedInfix
  simp only [Pattern.matches_sequence_cons, Pattern.matches_sequence_nil, Pattern.matches_literal,
    matches_compressTail, matches_date_id]
  -- Read: the stem and the extension are the groups, with the day between them.
  constructor
  · rintro ⟨stem, _, _, _, ⟨_, ⟨some_, all_, rfl⟩, rfl⟩,
      ⟨_, _, _, _, ⟨separator, isSeparator, rfl, rfl⟩,
      ⟨day, _, _, _, ⟨isDate, rfl⟩, ⟨_, _, _, _, ⟨rfl, rfl⟩, ⟨extension, _, _, _,
      ⟨_, ⟨someExtension, letters, rfl⟩, rfl⟩, ⟨tail, _, _, _, ⟨isTail, rfl⟩, ⟨rfl, rfl⟩, rfl, rfl⟩,
      rfl, rfl⟩, rfl,
      rfl⟩, rfl, rfl⟩, rfl, rfl⟩, rfl, rfl⟩
    exact ⟨stem, extension, some_, all_, someExtension, letters,
      ⟨separator, day, tail, isSeparator, isDate, isTail, by simp⟩, rfl⟩
  · -- Written: the day stands between two marks, and the extension behind it.
    rintro ⟨stem, extension, some_, all_, someExtension, letters,
      ⟨separator, day, tail, isSeparator, isDate, isTail, rfl⟩, rfl⟩
    exact ⟨stem, _, [stem], _, ⟨[], ⟨some_, all_, rfl⟩, rfl⟩,
      ⟨_, _, [], _, ⟨separator, isSeparator, rfl, rfl⟩,
      ⟨day, _, [], _, ⟨isDate, rfl⟩, ⟨_, _, [], _, ⟨rfl, rfl⟩, ⟨extension, _, [extension], _,
      ⟨[], ⟨someExtension, letters, rfl⟩, rfl⟩, ⟨tail, [], [], [], ⟨isTail, rfl⟩, ⟨rfl, rfl⟩, rfl,
      rfl⟩, rfl, rfl⟩,
      rfl, rfl⟩, rfl, rfl⟩, rfl, rfl⟩, by simp, rfl⟩

end Language

section Uniqueness

/-- What follows a text up to some item is empty, or has that item. -/
theorem mem_of_append_singleton {front behind rest : Bytes} {own : Byte}
    (same : front ++ [own] = behind ++ rest)
    (some_ : rest ≠ []) : own ∈ rest := by
  have last : rest.getLast? = some own := by
    have ends := congrArg List.getLast? same
    rw [List.getLast?_append_of_ne_nil _ some_,
      List.getLast?_append_of_ne_nil _ (List.cons_ne_nil own [])] at ends
    exact ends.symm
  exact List.mem_of_getLast? last

/-- A name has one last segment. -/
theorem lastSegment_unique {front other segment segment' : Bytes} (noDot : ascii '.' ∉ segment)
    (noDot' : ascii '.' ∉ segment')
    (same : front ++ bytes "." ++ segment = other ++ bytes "." ++ segment') :
    front = other ∧ segment = segment' := by
  have equal : front ++ bytes "." = other ++ bytes "." ∧ segment = segment' := by
    -- One of the two fronts goes on into the other; if it did, a segment would have a dot.
    obtain ⟨more, longer, rest⟩ | ⟨more, longer, rest⟩ := List.append_eq_append_iff.mp same
    · by_cases none_ : more = []
      · subst none_
        exact ⟨by simpa using longer.symm, by simpa using rest⟩
      · exact absurd (rest ▸ List.mem_append_left _ (mem_of_append_singleton longer none_)) noDot
    · by_cases none_ : more = []
      · subst none_
        exact ⟨by simpa using longer, by simpa using rest.symm⟩
      · exact absurd (rest ▸ List.mem_append_left _ (mem_of_append_singleton longer none_)) noDot'
  exact ⟨List.append_cancel_right equal.1, equal.2⟩

/-- A date has ten characters, none of them a dot and some of them a dash. -/
theorem IsDate.spec {day : Bytes} (isDate : IsDate day) :
    day.length = 10 ∧ ascii '.' ∉ day ∧ ascii '-' ∈ day ∧ OneLine day := by
  obtain ⟨year, month, rest, yearSize, monthSize, restSize, all_, rfl⟩ := isDate
  have dash : bytes "-" = [ascii '-'] := by decide
  -- A day has digits and dashes, and nothing else.
  have inside : ∀ byte ∈ year ++ bytes "-" ++ month ++ bytes "-" ++ rest, isDigit byte = true ∨
      byte = ascii '-' := by
    intro byte member
    simp only [dash, List.mem_append, List.mem_singleton] at member
    obtain (((early | rfl) | middle) | rfl) | late := member
    · exact .inl (all_ byte (by simp [early]))
    · exact .inr rfl
    · exact .inl (all_ byte (by simp [middle]))
    · exact .inr rfl
    · exact .inl (all_ byte (by simp [late]))
  refine ⟨?_, fun member => ?_, ?_, fun byte member => ?_⟩
  · simp only [dash, List.length_append, yearSize, monthSize, restSize, List.length_singleton]
  · exact absurd (inside _ member) (by decide)
  · simp [dash]
  · obtain digit | rfl := inside byte member
    · -- A digit is no line break, so a dot of the pattern takes it.
      have notBreak : ∀ byte : Byte, isDigit byte = true → isDot byte = true := by
        intro byte digit
        unfold isDot
        by_contra broken
        have breaks : byte = ascii '\n' ∨ byte = ascii '\r' := by
          simpa [or_iff_not_imp_left] using broken
        obtain rfl | rfl := breaks <;> exact absurd digit (by decide)
      exact notBreak byte digit
    · decide

/-- A name does not end with a date and with a segment that has no dash. -/
theorem date_not_segment {front other segment day : Bytes} {separator : Byte}
    (noDash : ascii '-' ∉ segment)
    (isDate : IsDate day) : front ++ bytes "." ++ segment ≠ other ++ [separator] ++ day := by
  obtain ⟨-, noDot, hasDash, -⟩ := isDate.spec
  intro same
  -- The dash would have to be in the segment, or the dot in the date.
  obtain ⟨more, -, rest⟩ | ⟨more, longer, rest⟩ := List.append_eq_append_iff.mp same
  · exact noDash (rest ▸ List.mem_append_right _ hasDash)
  · by_cases none_ : more = []
    · rw [rest, none_, List.nil_append] at hasDash
      exact noDash hasDash
    · exact noDot (rest ▸ List.mem_append_left _ (mem_of_append_singleton longer none_))

/-- A compression suffix is a dot and a segment with a letter, without dots and dashes. -/
theorem compressSuffixes_spec {tail : Bytes} (listed : tail ∈ compressSuffixes) :
    ∃ codec, tail = bytes "." ++ codec ∧ ascii '.' ∉ codec ∧ ascii '-' ∉ codec ∧
      ∃ byte ∈ codec, isDigit byte = false := by
  simp only [compressSuffixes, List.mem_cons, List.not_mem_nil, or_false] at listed
  obtain rfl | rfl | rfl | rfl := listed
  · exact ⟨bytes "gz", by decide⟩
  · exact ⟨bytes "bz2", by decide⟩
  · exact ⟨bytes "xz", by decide⟩
  · exact ⟨bytes "zst", by decide⟩

/-- A name without a compression suffix. -/
def Plain (name : Bytes) : Prop := ∀ tail ∈ compressSuffixes, ¬ tail <:+ name

/-- A number is no codec. -/
theorem plain_number (stem : Bytes) {number : Bytes} (all_ : ∀ byte ∈ number, isDigit byte = true) :
    Plain (stem ++ bytes "." ++ number) := by
  intro tail listed behind
  obtain ⟨codec, rfl, noDot, -, byte, member, letter⟩ := compressSuffixes_spec listed
  obtain ⟨front, same⟩ := behind
  -- A suffix has a letter, and the number has none.
  have noDot' : ascii '.' ∉ number := fun dot => absurd (all_ _ dot) (by decide)
  obtain ⟨-, rfl⟩ := lastSegment_unique noDot noDot' ((List.append_assoc _ _ _).trans same)
  rw [all_ byte member] at letter
  cases letter

/-- Nor is a date. -/
theorem plain_date (stem : Bytes) (separator : Byte) {day : Bytes} (isDate : IsDate day) :
    Plain (stem ++ [separator] ++ day) := by
  intro tail listed behind
  obtain ⟨codec, rfl, -, noDash, -⟩ := compressSuffixes_spec listed
  obtain ⟨front, same⟩ := behind
  exact date_not_segment noDash isDate ((List.append_assoc _ _ _).trans same)

/-- Nor is another extension. -/
theorem plain_extension (front : Bytes) {extension : Bytes} (noDot : ascii '.' ∉ extension)
    (noCodec : bytes "." ++ extension ∉ compressSuffixes) :
    Plain (front ++ bytes "." ++ extension) := by
  intro tail listed behind
  obtain ⟨codec, rfl, noDot', -⟩ := compressSuffixes_spec listed
  obtain ⟨other, same⟩ := behind
  obtain ⟨-, rfl⟩ := lastSegment_unique noDot' noDot ((List.append_assoc _ _ _).trans same)
  exact noCodec listed

/-- The tail of a name is unique, where a name without one is plain. -/
theorem tail_unique {core core' tail tail' : Bytes} (isTail : IsTail tail) (isTail' : IsTail tail')
    (plain : tail = [] → Plain core) (plain' : tail' = [] → Plain core')
    (same : core ++ tail = core' ++ tail') :
    core = core' ∧ tail = tail' := by
  have equal : tail = tail' := by
    obtain rfl | listed := isTail
    · obtain rfl | listed' := isTail'
      · rfl
      · exact absurd ⟨core', by rw [← same, List.append_nil]⟩ (plain rfl tail' listed')
    · obtain rfl | listed' := isTail'
      · exact absurd ⟨core, by rw [same, List.append_nil]⟩ (plain' rfl tail listed)
      · -- Of two suffixes of one name, one is a suffix of the other.
        have apart : ∀ first ∈ compressSuffixes, ∀ second ∈ compressSuffixes, first <:+ second →
            first = second := by
          decide
        obtain shorter | longer := List.suffix_or_suffix_of_suffix (List.suffix_append core tail)
          (same ▸ List.suffix_append core' tail')
        · exact apart tail listed tail' listed' shorter
        · exact (apart tail' listed' tail listed longer).symm
  subst equal
  exact ⟨List.append_cancel_right same, rfl⟩

/-- A name has one stem in front of a number. -/
theorem NumberedOf.unique {stem number tail other name : Bytes}
    (all_ : ∀ byte ∈ number, isDigit byte = true)
    (isTail : IsTail tail) (shape : name = stem ++ bytes "." ++ number ++ tail)
    (numbered : NumberedOf other name) :
    stem = other ∧ acceptedSuffix number = true := by
  obtain ⟨number', tail', -, all_', accepted, isTail', same⟩ := numbered
  -- Without its tail the name ends in the number, which is behind the last dot.
  obtain ⟨cores, -⟩ := tail_unique isTail isTail' (fun _ => plain_number stem all_)
    (fun _ => plain_number other all_') (shape.symm.trans same)
  have noDot {digits_ : Bytes} (all_ : ∀ byte ∈ digits_, isDigit byte = true) :
      ascii '.' ∉ digits_ :=
    fun dot => absurd (all_ _ dot) (by decide)
  obtain ⟨rfl, rfl⟩ := lastSegment_unique (noDot all_) (noDot all_') cores
  exact ⟨rfl, accepted⟩

/-- A name has one stem in front of a date. -/
theorem DatedOf.unique {stem other name : Bytes} (dated : DatedOf stem name)
    (again : DatedOf other name) :
    stem = other := by
  obtain ⟨separator, day, tail, -, isDate, isTail, rfl⟩ := dated
  obtain ⟨separator', day', tail', -, isDate', isTail', same⟩ := again
  obtain ⟨cores, -⟩ := tail_unique isTail isTail' (fun _ => plain_date stem separator isDate)
    (fun _ => plain_date other separator' isDate') same
  have sizes : day.length = day'.length := isDate.spec.1.trans isDate'.spec.1.symm
  exact (List.append_inj' (List.append_inj' cores sizes).1 rfl).1

/-- No name ends with a number and with a date. -/
theorem NumberedOf.not_datedOf {stem other name : Bytes} (numbered : NumberedOf stem name) :
    ¬ DatedOf other name := by
  obtain ⟨number, tail, -, all_, -, isTail, rfl⟩ := numbered
  rintro ⟨separator, day, tail', -, isDate, isTail', same⟩
  obtain ⟨cores, -⟩ := tail_unique isTail isTail' (fun _ => plain_number stem all_)
    (fun _ => plain_date other separator isDate) same
  exact date_not_segment (fun dash => absurd (all_ _ dash) (by decide)) isDate cores

/-- A name that ends with no date has one stem and one extension around a date. -/
theorem InfixOf.unique {stem extension other extension' name : Bytes}
    (infix_ : InfixOf stem extension name)
    (again : InfixOf other extension' name) (noDot : ascii '.' ∉ extension)
    (noDot' : ascii '.' ∉ extension')
    (undated : ¬ DatedOf stem name) (undated' : ¬ DatedOf other name) :
    stem = other ∧ extension = extension' := by
  -- An extension that is a codec at the end of the name would make the name a compressed dated one.
  have plain {stem extension tail : Bytes} {separator : Byte} {day : Bytes}
      (isSeparator : isDateSeparator separator = true) (isDate : IsDate day)
        (noDot : ascii '.' ∉ extension)
      (shape : name = stem ++ [separator] ++ day ++ bytes "." ++ extension ++ tail)
        (undated : ¬ DatedOf stem name)
      (noTail : tail = []) : Plain (stem ++ [separator] ++ day ++ bytes "." ++ extension) := by
    refine plain_extension _ noDot fun codec =>
      undated ⟨separator, day, _, isSeparator, isDate, .inr codec, ?_⟩
    rw [shape, noTail]
    simp
  obtain ⟨separator, day, tail, isSeparator, isDate, isTail, shape⟩ := infix_
  obtain ⟨separator', day', tail', isSeparator', isDate', isTail', shape'⟩ := again
  obtain ⟨cores, -⟩ := tail_unique isTail isTail' (plain isSeparator isDate noDot shape undated)
    (plain isSeparator' isDate' noDot' shape' undated') (shape.symm.trans shape')
  obtain ⟨fronts, rfl⟩ := lastSegment_unique noDot noDot' cores
  have sizes : day.length = day'.length := isDate.spec.1.trans isDate'.spec.1.symm
  exact ⟨(List.append_inj' (List.append_inj' fronts sizes).1 rfl).1, rfl⟩

end Uniqueness

end Loglib
