import Loglib.Basic.DecimalText

/-! The names of the columns of a header line: repeated ones get a number behind them. -/

namespace Loglib

/-- A name with a number behind it. -/
def numbered (base : Bytes) (suffix : Nat) : Bytes := base ++ ascii '_' :: decimal suffix

/-- The first suffix, from two on, whose name is not taken yet. One more try than there are names
suffices. -/
def freeSuffix (seen : List Bytes) (base : Bytes) : Nat :=
  ((List.range' 2 (seen.length + 1)).find? fun suffix =>
    !seen.contains (numbered base suffix)).getD 2

/-- The rest of the names, with those that are taken. -/
def renameTaken (seen : List Bytes) : List Bytes → List Bytes
  | [] => []
  | name :: rest =>
    let given := if seen.contains name then numbered name (freeSuffix seen name) else name
    given :: renameTaken (given :: seen) rest

/-- `DeduplicateColumnNames`. -/
def deduplicateColumnNames (names : List Bytes) : List Bytes := renameTaken [] names

section Suffixes

variable {base other : Bytes} {suffix another : Nat} {seen : List Bytes}

/-- A numbered name has one base and one number: the digits hold no underscore. -/
theorem numbered_inj (same : numbered base suffix = numbered other another) :
    base = other ∧ suffix = another := by
  have digits : ∀ number : Nat, ascii '_' ∉ (decimal number).reverse := by
    intro number member
    have digit := isDecimalDigit_of_mem_decimal (List.mem_reverse.mp member)
    exact absurd digit (by decide)
  -- Both are cut at their last underscore.
  have reversed := congrArg List.reverse same
  simp only [numbered, List.reverse_append, List.reverse_cons, List.append_assoc,
    List.singleton_append] at reversed
  have cut : ∀ (number : Nat) (name : Bytes),
      ((decimal number).reverse ++ ascii '_' :: name.reverse).takeWhile (· ≠ ascii '_') =
        (decimal number).reverse := by
    intro number name
    have plain : ∀ byte ∈ (decimal number).reverse, decide (byte ≠ ascii '_') = true := by
      intro byte member
      exact decide_eq_true fun same => digits number (same ▸ member)
    rw [List.takeWhile_append_of_pos plain]
    simp
  have tails : (decimal suffix).reverse = (decimal another).reverse := by
    rw [← cut suffix base, reversed, cut]
  have numbers : suffix = another := decimal_injective (List.reverse_injective tails)
  subst numbers
  have bases := List.append_cancel_left reversed
  exact ⟨List.reverse_injective (List.cons.inj bases).2, rfl⟩

/-- A numbered name is longer than its base. -/
theorem numbered_ne (base : Bytes) (suffix : Nat) : numbered base suffix ≠ base := by
  intro same
  have lengths := congrArg List.length same
  simp only [numbered, List.length_append, List.length_cons] at lengths
  omega

/-- The suffix that is found is free, and all before it are taken. -/
theorem freeSuffix_spec (seen : List Bytes) (base : Bytes) :
    2 ≤ freeSuffix seen base ∧ numbered base (freeSuffix seen base) ∉ seen ∧
      ∀ suffix, 2 ≤ suffix → suffix < freeSuffix seen base → numbered base suffix ∈ seen := by
  have injective : Function.Injective (numbered base) :=
    fun first second same => (numbered_inj same).2
  cases found : (List.range' 2 (seen.length + 1)).find? fun suffix =>
    !seen.contains (numbered base suffix) with
  | none =>
    -- The candidates are distinct and one more than the names.
    exfalso
    have taken : ∀ suffix ∈ List.range' 2 (seen.length + 1), numbered base suffix ∈ seen := by
      simpa using found
    have distinct : ((List.range' 2 (seen.length + 1)).map (numbered base)).Nodup :=
      (List.nodup_range' 1 Nat.one_pos).map injective
    have inside : ((List.range' 2 (seen.length + 1)).map (numbered base)).Subset seen := by
      intro name member
      obtain ⟨suffix, listed, rfl⟩ := List.mem_map.mp member
      exact taken suffix listed
    have most := (distinct.subperm inside).length_le
    simp at most
  | some suffix =>
    have same : freeSuffix seen base = suffix := by rw [freeSuffix, found, Option.getD_some]
    obtain ⟨free, listed, before⟩ := List.find?_range'_eq_some.mp found
    rw [same]
    refine ⟨?_, by simpa using free, fun earlier least smaller => by simpa using before earlier least smaller⟩
    simp only [List.mem_range'_1] at listed
    exact listed.1

end Suffixes

section Renaming

variable {seen names : List Bytes}

/-- No name is added or removed. -/
theorem length_renameTaken (seen names : List Bytes) :
    (renameTaken seen names).length = names.length := by
  induction names generalizing seen with
  | nil => rfl
  | cons name rest ih => simp [renameTaken, ih]

/-- The names given are not taken, and no two of them are the same. -/
theorem renameTaken_distinct (seen names : List Bytes) :
    (renameTaken seen names).Nodup ∧ ∀ name ∈ renameTaken seen names, name ∉ seen := by
  induction names generalizing seen with
  | nil => exact ⟨List.nodup_nil, fun _ member => absurd member List.not_mem_nil⟩
  | cons name rest ih =>
    -- The name that is given is new, whether it is numbered or not.
    have fresh : (if seen.contains name then numbered name (freeSuffix seen name)
        else name) ∉ seen := by
      split
      · exact (freeSuffix_spec seen name).2.1
      · rename_i absent
        exact fun member => absent (List.contains_iff_mem.mpr member)
    unfold renameTaken
    dsimp only
    generalize (if seen.contains name then numbered name (freeSuffix seen name)
      else name) = given at fresh
    -- The names behind it avoid it as well.
    obtain ⟨distinct, apart⟩ := ih (given :: seen)
    refine ⟨List.nodup_cons.mpr ⟨fun again => apart given again List.mem_cons_self, distinct⟩, ?_⟩
    intro other member
    rcases List.mem_cons.mp member with rfl | later
    · exact fresh
    · exact fun held => apart other later (List.mem_cons_of_mem _ held)

end Renaming

/-- What a header needs of its names: as many as there are columns, no two the same, and each name
where it occurs first. -/
structure DistinctNames (names given : List Bytes) : Prop where
  length : given.length = names.length
  distinct : given.Nodup
  first : ∀ (position : Nat) name, names[position]? = some name → name ∉ names.take position →
    given[position]? = some name

/-- The numbers behind a base, below a suffix, that names of the header already have. -/
def writtenSuffixes (front : List Bytes) (base : Bytes) (suffix : Nat) : Finset Nat :=
  (Finset.Ico 2 suffix).filter fun smaller => front.contains (numbered base smaller)

/-- A numbered name comes before its base has been repeated often enough to be given that
number: each occurrence of the base behind the first one takes the next number that is not
written in front of it. -/
def Uncontested (names : List Bytes) : Prop :=
  ∀ (position suffix : Nat) (base : Bytes), 2 ≤ suffix →
    names[position]? = some (numbered base suffix) →
    numbered base suffix ∉ names.take position →
    (names.take position).count base + (writtenSuffixes (names.take position) base suffix).card <
      suffix

/-- The names of a front part, as they were renamed without changing a first occurrence: those of
the header and the numbered ones, which fill the numbers from two on. -/
structure Renamed (front seen : List Bytes) (given : Bytes → Finset Nat) : Prop where
  members : ∀ name, name ∈ seen ↔ name ∈ front ∨ ∃ base, ∃ suffix ∈ given base,
    name = numbered base suffix
  fresh : ∀ base, ∀ suffix ∈ given base, 2 ≤ suffix ∧ numbered base suffix ∉ front
  packed : ∀ base, ∀ suffix ∈ given base, ∀ smaller, 2 ≤ smaller → smaller < suffix →
    numbered base smaller ∈ seen
  card : ∀ base, (given base).card = front.count base - 1

section Contests

variable {front seen : List Bytes} {given : Bytes → Finset Nat} {base : Bytes} {suffix : Nat}

/-- A number is taken if a name of the header has it or if it was given. -/
theorem Renamed.mem_numbered (renamed : Renamed front seen given) :
    numbered base suffix ∈ seen ↔ numbered base suffix ∈ front ∨ suffix ∈ given base := by
  rw [renamed.members]
  refine or_congr_right ⟨?_, fun member => ⟨base, suffix, member, rfl⟩⟩
  rintro ⟨other, another, member, same⟩
  obtain ⟨rfl, rfl⟩ := numbered_inj same
  exact member

/-- A number that no name of the header has was given exactly if its base occurs often enough. -/
theorem Renamed.mem_given_iff (renamed : Renamed front seen given) (least : 2 ≤ suffix)
    (unwritten : numbered base suffix ∉ front) :
    suffix ∈ given base ↔ suffix ≤ front.count base + (writtenSuffixes front base suffix).card := by
  have card := renamed.card base
  have between : (Finset.Ico 2 suffix).card = suffix - 2 := Nat.card_Ico 2 suffix
  constructor
  · intro member
    -- Every smaller number is taken, by a name of the header or by a given one.
    have covered : Finset.Ico 2 suffix ⊆ writtenSuffixes front base suffix ∪
        (given base).erase suffix := by
      intro smaller inside
      obtain ⟨large, below⟩ := Finset.mem_Ico.mp inside
      rcases renamed.mem_numbered.mp (renamed.packed base suffix member smaller large below)
        with written | taken
      · exact Finset.mem_union_left _
          (Finset.mem_filter.mpr ⟨inside, List.contains_iff_mem.mpr written⟩)
      · exact Finset.mem_union_right _ (Finset.mem_erase.mpr ⟨Nat.ne_of_lt below, taken⟩)
    have most := (Finset.card_le_card covered).trans (Finset.card_union_le ..)
    rw [Finset.card_erase_of_mem member] at most
    have some_ : 0 < (given base).card := Finset.card_pos.mpr ⟨suffix, member⟩
    omega
  · intro often
    by_contra absent
    -- A given number above would have filled this one.
    have below : given base ⊆ Finset.Ico 2 suffix \ writtenSuffixes front base suffix := by
      intro other member
      obtain ⟨large, unseen⟩ := renamed.fresh base other member
      have smaller : other < suffix := by
        rcases Nat.lt_trichotomy other suffix with less | rfl | more
        · exact less
        · exact absurd member absent
        · have taken := renamed.packed base other member suffix least more
          rcases renamed.mem_numbered.mp taken with written | found
          · exact absurd written unwritten
          · exact absurd found absent
      refine Finset.mem_sdiff.mpr ⟨Finset.mem_Ico.mpr ⟨large, smaller⟩, fun written => ?_⟩
      exact unseen (List.contains_iff_mem.mp (Finset.mem_filter.mp written).2)
    have most := Finset.card_le_card below
    have some_ : writtenSuffixes front base suffix ⊆ Finset.Ico 2 suffix := Finset.filter_subset ..
    rw [Finset.card_sdiff_of_subset some_] at most
    have inside := Finset.card_le_card some_
    omega

/-- A new name that is not taken keeps its spelling. -/
theorem Renamed.keep {name : Bytes} (renamed : Renamed front seen given) (new : name ∉ seen) :
    Renamed (front ++ [name]) (name :: seen) given := by
  have absent : name ∉ front := fun member => new ((renamed.members name).mpr (.inl member))
  refine ⟨fun other => ?_, fun base suffix member => ?_,
    fun base suffix member smaller large less => ?_, fun base => ?_⟩
  · rw [List.mem_cons, renamed.members, List.mem_append, List.mem_singleton]
    tauto
  · obtain ⟨large, unseen⟩ := renamed.fresh base suffix member
    refine ⟨large, fun again => ?_⟩
    rcases List.mem_append.mp again with earlier | same
    · exact unseen earlier
    · -- A given number is taken, and the name is not.
      have same : numbered base suffix = name := by simpa using same
      exact new (same ▸ renamed.mem_numbered.mpr (.inr member))
  · exact List.mem_cons_of_mem _ (renamed.packed base suffix member smaller large less)
  · rw [renamed.card, List.count_append, List.count_singleton]
    by_cases same : name = base
    · subst same
      simp [List.count_eq_zero_of_not_mem absent]
    · simp [same]

/-- A repeated name takes the first free number. -/
theorem Renamed.give {name : Bytes} (renamed : Renamed front seen given) (repeated : name ∈ front) :
    Renamed (front ++ [name]) (numbered name (freeSuffix seen name) :: seen)
      (Function.update given name (insert (freeSuffix seen name) (given name))) := by
  obtain ⟨large, free, packed⟩ := freeSuffix_spec seen name
  generalize freeSuffix seen name = next at *
  have fresh : next ∉ given name := fun member => free (renamed.mem_numbered.mpr (.inr member))
  -- One number is added to those of this name, and no other name gets one.
  have added : ∀ base suffix, suffix ∈ Function.update given name (insert next (given name)) base ↔
      suffix ∈ given base ∨ (base = name ∧ suffix = next) := by
    intro base suffix
    by_cases same : base = name
    · subst same
      rw [Function.update_self, Finset.mem_insert]
      tauto
    · rw [Function.update_of_ne same]
      tauto
  refine ⟨fun other => ?_, fun base suffix member => ?_,
    fun base suffix member smaller least less => ?_, fun base => ?_⟩
  · -- The names that have been given are the ones seen, or one of them with a number.
    rw [List.mem_cons, renamed.members, List.mem_append, List.mem_singleton]
    constructor
    · rintro (rfl | earlier | ⟨base, suffix, member, same⟩)
      · exact .inr ⟨name, next, (added ..).mpr (.inr ⟨rfl, rfl⟩), rfl⟩
      · exact .inl (.inl earlier)
      · exact .inr ⟨base, suffix, (added ..).mpr (.inl member), same⟩
    · rintro ((earlier | rfl) | ⟨base, suffix, member, same⟩)
      · exact .inr (.inl earlier)
      · exact .inr (.inl repeated)
      · rcases (added ..).mp member with old | ⟨rfl, rfl⟩
        · exact .inr (.inr ⟨base, suffix, old, same⟩)
        · exact .inl same
  · -- The new number is at least two and has not been given.
    rcases (added ..).mp member with old | ⟨rfl, rfl⟩
    · obtain ⟨least, unseen⟩ := renamed.fresh base suffix old
      refine ⟨least, fun again => ?_⟩
      rcases List.mem_append.mp again with earlier | same
      · exact unseen earlier
      · have same : numbered base suffix = name := by simpa using same
        exact unseen (same ▸ repeated)
    · refine ⟨large, fun again => ?_⟩
      rcases List.mem_append.mp again with earlier | same
      · exact free ((renamed.members _).mpr (.inl earlier))
      · exact numbered_ne base suffix (by simpa using same)
  · -- The numbers below it have been given already.
    rcases (added ..).mp member with old | ⟨rfl, rfl⟩
    · exact List.mem_cons_of_mem _ (renamed.packed base suffix old smaller least less)
    · exact List.mem_cons_of_mem _ (packed smaller least less)
  · -- As many numbers as repetitions.
    rw [List.count_append, List.count_singleton]
    by_cases same : base = name
    · subst same
      have counted : 0 < front.count base := List.count_pos_iff.mpr repeated
      have before := renamed.card base
      rw [Function.update_self, Finset.card_insert_of_notMem fresh]
      simp only [beq_self_eq_true, if_true]
      omega
    · have differs : (name == base) = false := by simpa using Ne.symm same
      rw [Function.update_of_ne same, renamed.card, differs]
      simp

end Contests

/-- From a front part on, first occurrences keep their names exactly if no number of
theirs has been given. -/
theorem renameTaken_first_iff {front seen : List Bytes} {given : Bytes → Finset Nat}
    (renamed : Renamed front seen given)
    (rest : List Bytes) :
    (∀ (position : Nat) name, rest[position]? = some name → name ∉ front ++ rest.take position →
      (renameTaken seen rest)[position]? = some name) ↔
    ∀ (position suffix : Nat) (base : Bytes), 2 ≤ suffix → rest[position]? = some
      (numbered base suffix) →
      numbered base suffix ∉ front ++ rest.take position →
      (front ++ rest.take position).count base +
        (writtenSuffixes (front ++ rest.take position) base suffix).card <
        suffix := by
  -- The induction is on the names; the invariant says which numbers the ones in front
  -- have been given.
  induction rest generalizing front seen given with
  | nil => simp
  | cons name rest ih =>
    have shift : ∀ position, front ++ (name :: rest).take (position + 1) = (front ++ [name]) ++
        rest.take position := by
      simp
    refine Nat.and_forall_add_one.symm.trans (Iff.trans ?_ Nat.and_forall_add_one)
    simp only [shift, List.getElem?_cons_succ, List.getElem?_cons_zero, List.take_zero,
      List.append_nil,
      Option.some.injEq]
    by_cases taken : name ∈ seen
    · by_cases earlier : name ∈ front
      · -- A repeated name: nothing is asked of it, and it takes a number.
        have rest_ := ih (renamed.give earlier)
        have unfolds : renameTaken seen (name :: rest) = numbered name (freeSuffix seen name) ::
            renameTaken (numbered name (freeSuffix seen name) :: seen) rest := by
              simp [renameTaken, taken]
        simp only [unfolds, List.getElem?_cons_succ, List.getElem?_cons_zero]
        refine and_congr ⟨fun _ suffix base _ same absent => ?_,
          fun _ other same absent => ?_⟩ rest_
        · exact absurd (same ▸ earlier) absent
        · exact absurd (same ▸ earlier) absent
      · -- A first occurrence whose name has been given away fails both sides.
        obtain ⟨base, suffix, member, same⟩ :=
          ((renamed.members name).mp taken).resolve_left earlier
        subst same
        obtain ⟨least, unwritten⟩ := renamed.fresh base suffix member
        refine iff_of_false (fun both => ?_) fun both => ?_
        · have kept := both.1 (numbered base suffix) rfl earlier
          have unfolds : (renameTaken seen (numbered base suffix :: rest))[0]? =
              some (numbered (numbered base suffix) (freeSuffix seen (numbered base suffix))) := by
            simp [renameTaken, taken]
          exact numbered_ne _ _ (Option.some.inj (unfolds.symm.trans kept))
        · have often := (renamed.mem_given_iff least unwritten).mp member
          have rare := both.1 suffix base least rfl earlier
          omega
    · have rest_ := ih (renamed.keep taken)
      have unfolds : renameTaken seen (name :: rest) = name :: renameTaken (name :: seen) rest := by
        simp [renameTaken, taken]
      simp only [unfolds, List.getElem?_cons_succ, List.getElem?_cons_zero]
      refine and_congr ⟨fun _ suffix base least same absent => ?_, fun _ other same _ =>
        by rw [same]⟩ rest_
      -- A name that is not taken has not been given.
      subst same
      have absent' : suffix ∉ given base :=
        fun member => taken (renamed.mem_numbered.mpr (.inr member))
      have rare := (renamed.mem_given_iff least absent).not.mp absent'
      omega

/-- The names are distinct and as many as before, and every first occurrence keeps its name exactly
if no numbered name of the header comes after its base has been repeated so often that the number
has been given. -/
theorem deduplicateColumnNames_distinctNames_iff (names : List Bytes) :
    DistinctNames names (deduplicateColumnNames names) ↔ Uncontested names := by
  -- Before the first name nothing has been given out.
  have start : Renamed [] [] fun _ => ∅ := by
    refine ⟨?_, ?_, ?_, ?_⟩ <;> simp
  have first := renameTaken_first_iff start names
  simp only [List.nil_append] at first
  constructor
  · exact fun distinct => first.mp distinct.first
  · exact fun uncontested => ⟨length_renameTaken [] names, (renameTaken_distinct [] names).1,
      first.mpr uncontested⟩

/-- In the header `a,a,a_2` the second column takes the name of the third one. -/
theorem deduplicateColumnNames_takes_name :
    deduplicateColumnNames [bytes "a", bytes "a", bytes "a_2"] = [bytes "a", bytes "a_2",
      bytes "a_2_2"] ∧
      ¬DistinctNames [bytes "a", bytes "a", bytes "a_2"]
        (deduplicateColumnNames [bytes "a", bytes "a", bytes "a_2"]) := by
  have given : deduplicateColumnNames [bytes "a", bytes "a", bytes "a_2"] = [bytes "a", bytes "a_2",
      bytes "a_2_2"] := by
    decide +kernel
  refine ⟨given, fun distinct => ?_⟩
  -- The third name is the first of its kind, and would have to stay.
  have kept := distinct.first 2 (bytes "a_2") rfl (by decide)
  rw [given] at kept
  exact absurd kept (by decide)

end Loglib
