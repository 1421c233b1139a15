import Loglib.Files.RotationNames

/-! The primary that a rotated file's name is derived to, against the primary whose
sibling it is. -/

namespace Loglib

/-- A stem that the patterns of the derivation can read. -/
def IsStem (text : Bytes) : Prop := text ≠ [] ∧ OneLine text

/-- `[A-Za-z0-9]+`. -/
def IsWord (text : Bytes) : Prop := text ≠ [] ∧ ∀ byte ∈ text, isAlphanumeric byte = true

/-- The name that `DeriveRotationPrimary` derives. -/
def derivedName (name : Bytes) : Option Bytes :=
  (numberedTailing.regexMatch name).bind numberedStem <|>
    (datedTailing.regexMatch name).bind datedStem <|> (datedInfix.regexMatch name).bind infixStem

/-- It is put into the directory of the path. -/
theorem deriveRotationPrimary_eq {path : FilePath} (named : path.filename ≠ []) :
    deriveRotationPrimary path = (derivedName path.filename).map path.parentPath.child := by
  unfold deriveRotationPrimary derivedName
  simp only [named, if_false]

section Derivation

variable {name : Bytes}

/-- A word has no dot and no dash. -/
theorem IsWord.noDot {text : Bytes} (word : IsWord text) : ascii '.' ∉ text :=
  fun member => absurd (word.2 _ member) (by decide)

/-- The numbered form is found where there is one. -/
theorem numberedStem_eq_some_iff {stem : Bytes} :
    (numberedTailing.regexMatch name).bind numberedStem = some stem ↔
      IsStem stem ∧ NumberedOf stem name := by
  constructor
  · intro found
    obtain ⟨groups, read, result⟩ := Option.bind_eq_some_iff.mp found
    obtain ⟨own, number, tail, some_, oneLine, someNumber, all_, isTail, shape, rfl⟩ :=
      matches_numberedTailing.mp (Pattern.matches_of_regexMatch read)
    simp only [numberedStem] at result
    split at result
    · rename_i accepted
      obtain rfl := Option.some.inj result
      exact ⟨⟨some_, oneLine⟩, number, tail, someNumber, all_, accepted, isTail, shape⟩
    · cases result
  · rintro ⟨⟨some_, oneLine⟩, numbered⟩
    have described := numbered
    obtain ⟨number, tail, someNumber, all_, -, isTail, shape⟩ := described
    obtain ⟨groups, read⟩ := Pattern.regexMatch_isSome (matches_numberedTailing.mpr
      ⟨stem, number, tail, some_, oneLine, someNumber, all_, isTail, shape, rfl⟩)
    -- Whatever match is preferred has the same stem, and a number in range.
    obtain ⟨own, number', tail', -, -, -, all_', isTail', shape', rfl⟩ :=
      matches_numberedTailing.mp (Pattern.matches_of_regexMatch read)
    obtain ⟨rfl, accepted⟩ := NumberedOf.unique all_' isTail' shape' numbered
    rw [read, Option.bind_some, numberedStem, if_pos accepted]

/-- The dated form is found where there is one. -/
theorem datedStem_eq_some_iff {stem : Bytes} :
    (datedTailing.regexMatch name).bind datedStem = some stem ↔
      IsStem stem ∧ DatedOf stem name := by
  constructor
  · intro found
    obtain ⟨groups, read, result⟩ := Option.bind_eq_some_iff.mp found
    obtain ⟨own, some_, oneLine, dated, rfl⟩ :=
      matches_datedTailing.mp (Pattern.matches_of_regexMatch read)
    obtain rfl := Option.some.inj result
    exact ⟨⟨some_, oneLine⟩, dated⟩
  · -- The stem that the match finds is the only one the name has.
    rintro ⟨⟨some_, oneLine⟩, dated⟩
    obtain ⟨groups, read⟩ :=
      Pattern.regexMatch_isSome (matches_datedTailing.mpr ⟨stem, some_, oneLine, dated, rfl⟩)
    obtain ⟨own, -, -, again, rfl⟩ := matches_datedTailing.mp (Pattern.matches_of_regexMatch read)
    obtain rfl := dated.unique again
    rw [read, Option.bind_some, datedStem]

/-- The infix form is what is found, if anything. -/
theorem infixStem_cases {primary : Bytes}
    (found : (datedInfix.regexMatch name).bind infixStem = some primary) :
    ∃ stem extension, IsStem stem ∧ IsWord extension ∧ InfixOf stem extension name ∧
      primary = stem ++ bytes "." ++ extension := by
  obtain ⟨groups, read, result⟩ := Option.bind_eq_some_iff.mp found
  obtain ⟨stem, extension, some_, oneLine, someExtension, letters, around, rfl⟩ :=
    matches_datedInfix.mp (Pattern.matches_of_regexMatch read)
  exact ⟨stem, extension, ⟨some_, oneLine⟩, ⟨someExtension, letters⟩, around,
    (Option.some.inj result).symm⟩

/-- The infix form is found where there is one, and no dated form. -/
theorem infixStem_eq_some {stem extension : Bytes} (isStem : IsStem stem) (word : IsWord extension)
    (around : InfixOf stem extension name)
    (undated : ∀ other, IsStem other → ¬ DatedOf other name) :
    (datedInfix.regexMatch name).bind infixStem = some (stem ++ bytes "." ++ extension) := by
  obtain ⟨groups, read⟩ := Pattern.regexMatch_isSome (matches_datedInfix.mpr
    ⟨stem, extension, isStem.1, isStem.2, word.1, word.2, around, rfl⟩)
  obtain ⟨other, extension', some_, oneLine, someExtension, letters, again, rfl⟩ :=
    matches_datedInfix.mp (Pattern.matches_of_regexMatch read)
  have word' : IsWord extension' := ⟨someExtension, letters⟩
  -- The parts of the name are unique, as no other stem is dated.
  obtain ⟨rfl, rfl⟩ := around.unique again word.noDot word'.noDot (undated stem isStem)
    (undated other ⟨some_, oneLine⟩)
  rw [read, Option.bind_some, infixStem]

/-- A stem in front of a number in range is the primary. -/
theorem derivedName_of_numbered {stem : Bytes} (isStem : IsStem stem)
    (numbered : NumberedOf stem name) :
    derivedName name = some stem := by
  unfold derivedName
  rw [numberedStem_eq_some_iff.mpr ⟨isStem, numbered⟩]
  rfl

/-- Nothing is read by a form that no stem has. -/
theorem numberedStem_eq_none (unnumbered : ∀ stem, IsStem stem → ¬ NumberedOf stem name) :
    (numberedTailing.regexMatch name).bind numberedStem = none := by
  rw [Option.eq_none_iff_forall_ne_some]
  intro stem found
  obtain ⟨isStem, numbered⟩ := numberedStem_eq_some_iff.mp found
  exact unnumbered stem isStem numbered

/-- A stem in front of a date is the primary. -/
theorem derivedName_of_dated {stem : Bytes} (isStem : IsStem stem) (dated : DatedOf stem name) :
    derivedName name = some stem := by
  unfold derivedName
  rw [numberedStem_eq_none fun _ _ numbered => numbered.not_datedOf dated,
    datedStem_eq_some_iff.mpr ⟨isStem, dated⟩]
  rfl

/-- The parts around a date are the primary, where no other form reads the name. -/
theorem derivedName_of_around {stem extension : Bytes} (isStem : IsStem stem)
    (word : IsWord extension)
    (around : InfixOf stem extension name)
    (unnumbered : ∀ other, IsStem other → ¬ NumberedOf other name)
    (undated : ∀ other, IsStem other → ¬ DatedOf other name) :
    derivedName name = some (stem ++ bytes "." ++ extension) := by
  -- The earlier patterns do not match.
  have noDate : (datedTailing.regexMatch name).bind datedStem = none := by
    rw [Option.eq_none_iff_forall_ne_some]
    intro other found
    obtain ⟨otherStem, dated⟩ := datedStem_eq_some_iff.mp found
    exact undated other otherStem dated
  unfold derivedName
  rw [numberedStem_eq_none unnumbered, noDate, infixStem_eq_some isStem word around undated]
  rfl

/-- What a derived name was read from. -/
theorem derivedName_cases {primary : Bytes} (derived : derivedName name = some primary) :
    (IsStem primary ∧ NumberedOf primary name) ∨ (IsStem primary ∧ DatedOf primary name) ∨
      ∃ stem extension, IsStem stem ∧ IsWord extension ∧ InfixOf stem extension name ∧
        primary = stem ++ bytes "." ++ extension ∧ (∀ other, IsStem other →
          ¬ NumberedOf other name) ∧
        ∀ other, IsStem other → ¬ DatedOf other name := by
  simp only [derivedName, Option.orElse_eq_orElse, Option.orElse_eq_or,
    Option.or_eq_some_iff] at derived
  -- The three patterns are tried in order, so an infix means that the others do not match.
  obtain numbered | ⟨unnumbered, dated | ⟨undated, around⟩⟩ := derived
  · exact .inl (numberedStem_eq_some_iff.mp numbered)
  · exact .inr (.inl (datedStem_eq_some_iff.mp dated))
  · obtain ⟨stem, extension, isStem, word, read, shape⟩ := infixStem_cases around
    refine .inr (.inr ⟨stem, extension, isStem, word, read, shape, ?_, ?_⟩)
    · intro other otherStem numbered
      rw [numberedStem_eq_some_iff.mpr ⟨otherStem, numbered⟩] at unnumbered
      cases unnumbered
    · intro other otherStem dated
      rw [datedStem_eq_some_iff.mpr ⟨otherStem, dated⟩] at undated
      cases undated

end Derivation

/-- What stands behind the last dot of a name, if it has one. -/
theorem lastDot_cases (name : Bytes) :
    (name.reverse.takeWhile (· ≠ ascii '.')).length = name.length ∨
      ∃ front segment, name = front ++ bytes "." ++ segment ∧ ascii '.' ∉ segment ∧
        (name.reverse.takeWhile (· ≠ ascii '.')).length = segment.length := by
  have parts : name.reverse.takeWhile (· ≠ ascii '.') ++ name.reverse.dropWhile (· ≠ ascii '.') =
      name.reverse :=
    List.takeWhile_append_dropWhile
  -- Either no dot is found, or the part behind the last one is the segment.
  cases shape : name.reverse.dropWhile (· ≠ ascii '.') with
  | nil =>
    refine .inl ?_
    rw [shape, List.append_nil] at parts
    rw [parts, List.length_reverse]
  | cons dot front =>
    -- The search stops at a dot.
    have isDot_ : dot = ascii '.' := by
      have stops := List.head?_dropWhile_not (fun byte => decide (byte ≠ ascii '.')) name.reverse
      rw [shape] at stops
      simpa using stops
    subst isDot_
    -- Read backwards, the name is the segment, the dot and what is in front.
    have whole : name = front.reverse ++ bytes "." ++
        (name.reverse.takeWhile (· ≠ ascii '.')).reverse := by
      have reversed := congrArg List.reverse parts
      rw [List.reverse_reverse, shape, List.reverse_append, List.reverse_cons] at reversed
      exact reversed.symm
    refine .inr ⟨front.reverse, _, whole, fun member => ?_, List.length_reverse.symm⟩
    have differs := List.mem_takeWhile_imp (List.mem_reverse.mp member)
    simp at differs

/-- A name with an extension is a stem, a dot and the extension, which has no dot. -/
theorem splitStemExt_spec {primary : FilePath} (some_ : (splitStemExt primary).2 ≠ []) :
    (splitStemExt primary).1 ≠ [] ∧ ascii '.' ∉ (splitStemExt primary).2 ∧
      primary.filename = (splitStemExt primary).1 ++ bytes "." ++ (splitStemExt primary).2 := by
  obtain all_ | ⟨front, segment, whole, noDot, size⟩ := lastDot_cases primary.filename
  · -- Without a dot there is no extension.
    have noExtension : (splitStemExt primary).2 = [] := by
      unfold splitStemExt
      simp only [all_, true_or, if_true]
    exact absurd noExtension some_
  · have total : primary.filename.length = front.length + 1 + segment.length := by
      rw [whole]
      simp only [List.length_append]
      rfl
    have position : primary.filename.length - 1 - segment.length = front.length := by omega
    have notAll : ¬ segment.length = primary.filename.length := by omega
    have takes : primary.filename.take front.length = front := by
      rw [whole, List.append_assoc, List.take_left' rfl]
    have drops : primary.filename.drop (front.length + 1) = segment := by
      rw [whole, List.drop_left' (by rw [List.length_append]; rfl)]
    have split_ : splitStemExt primary =
        if front.length = 0 then (primary.filename, []) else (front, segment) := by
      unfold splitStemExt
      simp only [size, position, notAll, false_or, takes, drops]
    by_cases noStem : front.length = 0
    · rw [split_, if_pos noStem] at some_
      exact absurd rfl some_
    · rw [split_, if_neg noStem]
      exact ⟨fun empty => noStem (List.length_eq_zero_iff.mpr empty), noDot, whole⟩

/-- The matchers of a primary. -/
def matchersOf (primary : FilePath) : SiblingMatchers :=
  buildMatchers primary.filename (splitStemExt primary).1 (splitStemExt primary).2

/-- The forms of the siblings of a primary. -/
theorem classifySibling_forms {primary sibling : FilePath} {candidate : Candidate}
    (accepted : classifySibling sibling (matchersOf primary) = some candidate) :
    NumberedOf primary.filename sibling.filename ∨ DatedOf primary.filename sibling.filename ∨
      (splitStemExt primary).2 ≠ [] ∧
        InfixOf (splitStemExt primary).1 (splitStemExt primary).2 sibling.filename := by
  simp only [classifySibling, matchersOf, buildMatchers, Option.orElse_eq_orElse,
    Option.orElse_eq_or,
    Option.or_eq_some_iff] at accepted
  -- Number, date at the end, date in front of the extension: the first matcher that takes the name.
  obtain numbered | ⟨-, dated | ⟨-, around⟩⟩ := accepted
  · obtain ⟨rank, ranked, -⟩ := Option.map_eq_some_iff.mp numbered
    obtain ⟨groups, read, number⟩ := Option.bind_eq_some_iff.mp ranked
    have described := Pattern.matches_of_regexMatch read
    simp only [Pattern.matches_sequence_cons, Pattern.matches_sequence_nil, Pattern.matches_literal,
      matches_compressTail] at described
    obtain ⟨_, _, _, _, ⟨rfl, rfl⟩,
      ⟨_, _, _, _, ⟨rfl, rfl⟩, ⟨digits_, _, _, _, ⟨_, ⟨some_, all_, rfl⟩, rfl⟩,
      ⟨tail, _, _, _, ⟨isTail, rfl⟩, ⟨rfl, rfl⟩, rfl, rfl⟩, rfl, rfl⟩, rfl, rfl⟩, shape, rfl⟩ :=
        described
    have inRange : acceptedSuffix digits_ = true := by
      by_contra out
      simp [numberedRank, out] at number
    exact .inl ⟨digits_, tail, some_, all_, inRange, isTail, by simpa using shape⟩
  · obtain ⟨rank, ranked, -⟩ := Option.map_eq_some_iff.mp dated
    obtain ⟨groups, read, -⟩ := Option.bind_eq_some_iff.mp ranked
    have described := Pattern.matches_of_regexMatch read
    simp only [Pattern.matches_sequence_cons, Pattern.matches_sequence_nil, Pattern.matches_literal,
      matches_compressTail] at described
    obtain ⟨_, _, _, _, ⟨rfl, rfl⟩,
      ⟨_, _, _, _, ⟨separator, isSeparator, rfl, rfl⟩, ⟨day, _, _, _, isDate,
      ⟨tail, _, _, _, ⟨isTail, rfl⟩, ⟨rfl, rfl⟩, rfl, rfl⟩, rfl, rfl⟩, rfl, rfl⟩, shape, -⟩ :=
        described
    exact .inr (.inl ⟨separator, day, tail, isSeparator, isDate_of_matches_group isDate, isTail,
      by simpa using shape⟩)
  · obtain ⟨rank, ranked, -⟩ := Option.map_eq_some_iff.mp around
    obtain ⟨groups, read, -⟩ := Option.bind_eq_some_iff.mp ranked
    obtain ⟨pattern, built, read⟩ := Option.bind_eq_some_iff.mp read
    split at built
    · rename_i both
      obtain rfl := Option.some.inj built
      have described := Pattern.matches_of_regexMatch read
      simp only [Pattern.matches_sequence_cons, Pattern.matches_sequence_nil,
        Pattern.matches_literal,
        matches_compressTail] at described
      obtain ⟨_, _, _, _, ⟨rfl, rfl⟩,
        ⟨_, _, _, _, ⟨separator, isSeparator, rfl, rfl⟩, ⟨day, _, _, _, isDate,
        ⟨_, _, _, _, ⟨rfl, rfl⟩,
        ⟨_, _, _, _, ⟨rfl, rfl⟩, ⟨tail, _, _, _, ⟨isTail, rfl⟩, ⟨rfl, rfl⟩, rfl, rfl⟩, rfl,
        rfl⟩, rfl, rfl⟩, rfl, rfl⟩, rfl, rfl⟩, shape, -⟩ := described
      exact .inr (.inr ⟨both.1, separator, day, tail, isSeparator, isDate_of_matches_group isDate,
        isTail,
        by simpa using shape⟩)
    · cases built

/-- A name that one of the patterns of the derivation reads. -/
def IsRotatedName (name : Bytes) : Prop :=
  ∃ stem, IsStem stem ∧ (NumberedOf stem name ∨ DatedOf stem name ∨
    ∃ extension, IsWord extension ∧ InfixOf stem extension name)

/-- An extension that cannot be taken for something else behind a date: letters and digits, no
number in range, and a codec only where the name is compressed once more. -/
structure PlainExtension (extension name : Bytes) : Prop where
  word : IsWord extension
  noNumber : ¬ ((∀ byte ∈ extension, isDigit byte = true) ∧ acceptedSuffix extension = true)
  noCodec : bytes "." ++ extension ∈ compressSuffixes →
    ∃ tail ∈ compressSuffixes, bytes "." ++ extension ++ tail <:+ name

section Agreement

variable {name : Bytes}

/-- A separator ends no line. -/
theorem isDot_of_isDateSeparator {separator : Byte}
    (isSeparator : isDateSeparator separator = true) :
    isDot separator = true := by
  simp only [isDateSeparator, Bool.or_eq_true, decide_eq_true_eq] at isSeparator
  obtain (rfl | rfl) | rfl := isSeparator <;> decide

/-- A word is on one line. -/
theorem IsWord.oneLine {text : Bytes} (word : IsWord text) : OneLine text := by
  intro byte member
  have letter := word.2 byte member
  unfold isDot
  by_contra broken
  have breaks : byte = ascii '\n' ∨ byte = ascii '\r' := by simpa [or_iff_not_imp_left] using broken
  obtain rfl | rfl := breaks <;> exact absurd letter (by decide)

/-- Texts on one line make a text on one line. -/
theorem OneLine.append {first second : Bytes} (front : OneLine first) (behind : OneLine second) :
    OneLine (first ++ second) := fun byte member =>
  (List.mem_append.mp member).elim (front byte) (behind byte)

/-- A derived name is a stem, and shorter than the name. -/
theorem derivedName_spec {primary : Bytes} (derived : derivedName name = some primary) :
    IsStem primary ∧ primary.length < name.length := by
  obtain ⟨isStem, numbered⟩ | ⟨isStem, dated⟩ | ⟨stem, extension, isStem, word, around, rfl, -⟩ :=
    derivedName_cases derived
  · -- What is cut off is never empty: a number, a date, or a date between the two parts.
    obtain ⟨number, tail, some_, -, -, -, rfl⟩ := numbered
    refine ⟨isStem, ?_⟩
    have positive := List.length_pos_iff.mpr some_
    simp only [List.length_append]
    omega
  · obtain ⟨separator, day, tail, -, -, -, rfl⟩ := dated
    refine ⟨isStem, ?_⟩
    simp only [List.length_append, List.length_singleton]
    omega
  · obtain ⟨separator, day, tail, -, -, -, rfl⟩ := around
    refine ⟨⟨?_, ?_⟩, ?_⟩
    · simp [isStem.1]
    · -- A dot is no line break.
      have dot : OneLine (bytes ".") := by
        intro byte member
        have single : bytes "." = [ascii '.'] := by decide
        rw [single, List.mem_singleton] at member
        rw [member]
        decide
      exact (isStem.2.append dot).append word.oneLine
    · simp only [List.length_append, List.length_singleton]
      omega

/-- A name is derived to another exactly when a pattern reads it. -/
theorem derivedName_eq_none_iff : derivedName name = none ↔ ¬ IsRotatedName name := by
  constructor
  · rintro none_ ⟨stem, isStem, form⟩
    have some_ : ∃ primary, derivedName name = some primary := by
      by_cases numbered : ∃ other, IsStem other ∧ NumberedOf other name
      · obtain ⟨other, otherStem, numbered⟩ := numbered
        exact ⟨other, derivedName_of_numbered otherStem numbered⟩
      by_cases dated : ∃ other, IsStem other ∧ DatedOf other name
      · obtain ⟨other, otherStem, dated⟩ := dated
        exact ⟨other, derivedName_of_dated otherStem dated⟩
      -- Neither a number nor a date at the end, so the date is in the middle.
      obtain form | form | ⟨extension, word, around⟩ := form
      · exact absurd ⟨stem, isStem, form⟩ numbered
      · exact absurd ⟨stem, isStem, form⟩ dated
      · exact ⟨_, derivedName_of_around isStem word around
          (fun other otherStem form => numbered ⟨other, otherStem, form⟩)
          fun other otherStem form => dated ⟨other, otherStem, form⟩⟩
    obtain ⟨primary, derived⟩ := some_
    rw [none_] at derived
    cases derived
  · intro unread
    rw [Option.eq_none_iff_forall_ne_some]
    intro primary derived
    obtain ⟨isStem, numbered⟩ | ⟨isStem, dated⟩ | ⟨stem, extension, isStem, word, around, -⟩ :=
      derivedName_cases derived
    · exact unread ⟨primary, isStem, .inl numbered⟩
    · exact unread ⟨primary, isStem, .inr (.inl dated)⟩
    · exact unread ⟨stem, isStem, .inr (.inr ⟨extension, word, around⟩)⟩

/-- A plain extension is read as one. -/
theorem derivedName_of_plainExtension {stem extension : Bytes} (isStem : IsStem stem)
    (plain : PlainExtension extension name) (around : InfixOf stem extension name) :
    derivedName name = some (stem ++ bytes "." ++ extension) := by
  have noDot := plain.word.noDot
  have noDash : ascii '-' ∉ extension := fun member => absurd (plain.word.2 _ member) (by decide)
  have form := around
  obtain ⟨separator, day, tail, -, isDate, isTail, shape⟩ := form
  have core : tail = [] → Plain (stem ++ [separator] ++ day ++ bytes "." ++ extension) := by
    rintro rfl
    refine plain_extension _ noDot fun codec => ?_
    -- Compressed once more, the segment in front of the codec would be the codec too,
    -- and it is the date.
    obtain ⟨tail, listed, front, same⟩ := plain.noCodec codec
    obtain ⟨last, rfl, lastNoDot, -⟩ := compressSuffixes_spec listed
    have split_ : front ++ bytes "." ++ extension ++ bytes "." ++ last =
        stem ++ [separator] ++ day ++ bytes "." ++ extension := by
      rw [shape, List.append_nil] at same
      rw [← same]
      simp only [List.append_assoc]
    obtain ⟨fronts, -⟩ := lastSegment_unique lastNoDot noDot split_
    exact date_not_segment noDash isDate fronts
  refine derivedName_of_around isStem plain.word around ?_ ?_
  · rintro other - ⟨number, tail', -, all_, accepted, isTail', shape'⟩
    obtain ⟨cores, -⟩ := tail_unique isTail isTail' core (fun _ => plain_number other all_)
      (shape.symm.trans shape')
    obtain ⟨-, rfl⟩ := lastSegment_unique noDot (fun dot => absurd (all_ _ dot) (by decide)) cores
    exact plain.noNumber ⟨all_, accepted⟩
  · rintro other - ⟨separator', day', tail', -, isDate', isTail', shape'⟩
    obtain ⟨cores, -⟩ := tail_unique isTail isTail' core (fun _ =>
      plain_date other separator' isDate')
      (shape.symm.trans shape')
    exact date_not_segment noDash isDate' cores

/-- An extension that is read as one is plain. -/
theorem plainExtension_of_around {stem extension : Bytes} (isStem : IsStem stem)
    (word : IsWord extension)
    (around : InfixOf stem extension name)
    (unnumbered : ∀ other, IsStem other → ¬ NumberedOf other name)
    (undated : ∀ other, IsStem other → ¬ DatedOf other name) : PlainExtension extension name := by
  obtain ⟨separator, day, tail, isSeparator, isDate, isTail, shape⟩ := around
  refine ⟨word, ?_, fun codec => ?_⟩
  · rintro ⟨all_, accepted⟩
    -- The stem with the date would be a stem in front of a number.
    have longer : IsStem (stem ++ [separator] ++ day) := by
      refine ⟨by simp, (isStem.2.append ?_).append isDate.spec.2.2.2⟩
      intro byte member
      rw [List.mem_singleton.mp member]
      exact isDot_of_isDateSeparator isSeparator
    exact unnumbered _ longer ⟨extension, tail, word.1, all_, accepted, isTail, shape⟩
  · obtain rfl | listed := isTail
    · -- The codec would be the tail of a dated name.
      exact absurd ⟨separator, day, _, isSeparator, isDate, .inr codec, by rw [shape]; simp⟩
        (undated stem isStem)
    · refine ⟨tail, listed, stem ++ [separator] ++ day, ?_⟩
      rw [shape]
      simp only [List.append_assoc]

end Agreement

/-- The children of a directory differ in their names. -/
theorem FilePath.child_inj {directory : FilePath} {first second : Bytes}
    (same : directory.child first = directory.child second) : first = second := by
  have names := congrArg FilePath.names same
  exact List.singleton_inj.mp (List.append_cancel_left names)

/-- A path is derived to another of its directory exactly when its name is. -/
theorem deriveRotationPrimary_eq_some_iff {primary path : FilePath} (named : primary.filename ≠ [])
    (pathNamed : path.filename ≠ []) (together : path.parentPath = primary.parentPath) :
    deriveRotationPrimary path = some primary ↔
      derivedName path.filename = some primary.filename := by
  -- The primary is the child of its folder by its own name.
  have own : primary.parentPath.child primary.filename = primary :=
    (FilePath.eq_child_parentPath named).symm
  rw [deriveRotationPrimary_eq pathNamed, together, Option.map_eq_some_iff]
  constructor
  · rintro ⟨derived, read, same⟩
    rw [read, FilePath.child_inj (same.trans own.symm)]
  · intro read
    exact ⟨_, read, own⟩

/-- A path is the primary of its own series exactly when no pattern reads its name. -/
theorem deriveRotationPrimary_self_iff {primary : FilePath} (named : primary.filename ≠ []) :
    (deriveRotationPrimary primary).getD primary = primary ↔ ¬ IsRotatedName primary.filename := by
  rw [← derivedName_eq_none_iff]
  cases derived : deriveRotationPrimary primary with
  | none =>
    rw [deriveRotationPrimary_eq named, Option.map_eq_none_iff] at derived
    simp only [Option.getD_none, derived]
  | some other =>
    constructor
    · intro same
      rw [Option.getD_some] at same
      subst same
      -- A derived name is shorter than the name.
      have same := (deriveRotationPrimary_eq_some_iff named named rfl).mp derived
      exact absurd (derivedName_spec same).2 (Nat.lt_irrefl _)
    · intro none_
      rw [deriveRotationPrimary_eq named, none_] at derived
      cases derived

/-- The two readings of a name agree: a sibling of a primary is derived to the primary, and the
primary to itself, exactly when the primary's name is on one line and has none of the forms of a
rotated file, and the number or the date stands behind the whole name, or the extension behind the
date is plain. -/
theorem deriveRotationPrimary_agrees_iff {primary sibling : FilePath} {candidate : Candidate}
    (named : primary.filename ≠ []) (together : sibling.parentPath = primary.parentPath)
    (accepted : classifySibling sibling (matchersOf primary) = some candidate) :
    (deriveRotationPrimary sibling = some primary ∧
      (deriveRotationPrimary primary).getD primary = primary) ↔
      OneLine primary.filename ∧ ¬ IsRotatedName primary.filename ∧
        (NumberedOf primary.filename sibling.filename ∨ DatedOf primary.filename sibling.filename ∨
          PlainExtension (splitStemExt primary).2 sibling.filename) := by
  have forms := classifySibling_forms accepted
  have siblingNamed : sibling.filename ≠ [] := by
    obtain ⟨number, tail, some_, -, -, -, shape⟩ | ⟨separator, day, tail, -, -, -, shape⟩ |
      ⟨-, separator, day, tail, -, -, -, shape⟩ := forms <;> simp [shape, named]
  rw [deriveRotationPrimary_eq_some_iff named siblingNamed together,
    deriveRotationPrimary_self_iff named]
  constructor
  · rintro ⟨derived, unread⟩
    refine ⟨(derivedName_spec derived).1.2, unread, ?_⟩
    obtain ⟨-, numbered⟩ | ⟨-, dated⟩ | ⟨stem, extension, isStem, word, around, shape, unnumbered,
      undated⟩ :=
      derivedName_cases derived
    · exact .inl numbered
    · exact .inr (.inl dated)
    · -- The extension that was read is that of the primary, if the sibling is of the form with the
      -- date inside.
      obtain numbered | dated | ⟨some_, -⟩ := forms
      · exact .inl numbered
      · exact .inr (.inl dated)
      · obtain ⟨-, noDot, whole⟩ := splitStemExt_spec some_
        obtain ⟨-, same⟩ := lastSegment_unique word.noDot noDot (shape.symm.trans whole)
        exact .inr (.inr (same ▸ plainExtension_of_around isStem word around unnumbered undated))
  · rintro ⟨oneLine, unread, forward⟩
    have isStem : IsStem primary.filename := ⟨named, oneLine⟩
    refine ⟨?_, unread⟩
    obtain numbered | dated | ⟨some_, around⟩ := forms
    · exact derivedName_of_numbered isStem numbered
    · exact derivedName_of_dated isStem dated
    · obtain numbered | dated | plain := forward
      · exact derivedName_of_numbered isStem numbered
      · exact derivedName_of_dated isStem dated
      · obtain ⟨someStem, -, whole⟩ := splitStemExt_spec some_
        have stem : IsStem (splitStemExt primary).1 :=
          ⟨someStem, fun byte member => oneLine byte (by rw [whole]; simp [member])⟩
        rw [whole]
        exact derivedName_of_plainExtension stem plain around

/-- A file of a directory `/d`. -/
def logFile (name : String) : FilePath := ⟨true, [bytes "d", bytes name], false⟩

/-- A dated, compressed sibling is derived to its primary. -/
theorem datedSibling_agrees :
    (deriveRotationPrimary (logFile "app-2024-01-01.log.gz") = some (logFile "app.log") ∧
        (deriveRotationPrimary (logFile "app.log")).getD (logFile "app.log") = logFile "app.log") ∧
      OneLine (logFile "app.log").filename ∧ ¬ IsRotatedName (logFile "app.log").filename := by
  have agrees : deriveRotationPrimary (logFile "app-2024-01-01.log.gz") = some (logFile "app.log") ∧
      (deriveRotationPrimary (logFile "app.log")).getD (logFile "app.log") = logFile "app.log" := by
    decide +kernel
  have accepted : classifySibling (logFile "app-2024-01-01.log.gz")
    (matchersOf (logFile "app.log")) =
      some ⟨logFile "app-2024-01-01.log.gz", .datedSuffix, 19723⟩ := by decide +kernel
  -- The name is not empty, and both files are in one folder.
  have named : (logFile "app.log").filename ≠ [] := by decide +kernel
  have together : (logFile "app-2024-01-01.log.gz").parentPath = (logFile "app.log").parentPath :=
    rfl
  have condition := (deriveRotationPrimary_agrees_iff named together accepted).mp agrees
  exact ⟨agrees, condition.1, condition.2.1⟩

/-- The extension of `app.7` is taken for a number, and its dated sibling is derived to
another name. -/
theorem numberedExtension_disagrees :
    (classifySibling (logFile "app-2024-01-01.7") (matchersOf (logFile "app.7"))).isSome = true ∧
      deriveRotationPrimary (logFile "app-2024-01-01.7") = some (logFile "app-2024-01-01") ∧
      deriveRotationPrimary (logFile "app-2024-01-01.7") ≠ some (logFile "app.7") := by
  decide +kernel

end Loglib
