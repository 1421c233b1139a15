import Mathlib

/-! Backtracking patterns over any alphabet: matches come in order of preference, with
their groups. -/

namespace Loglib

/-- A pattern. Repetition is of single items, which is all that a file name needs. -/
inductive Pattern (α : Type*) where
  | empty
  | item (accept : α → Bool)
  /-- One item or more, as many as possible first when greedy and as few as possible otherwise. -/
  | many1 (accept : α → Bool) (greedy : Bool)
  | seq (first second : Pattern α)
  | alt (first second : Pattern α)
  | group (inner : Pattern α)

namespace Pattern

variable {α : Type*}

/-- One way to match a front part of the input. -/
structure Match (α : Type*) where
  consumed : List α
  groups : List (List α)
  rest : List α

/-- The ways to split off one accepted item or more. -/
def runMany (accept : α → Bool) (greedy : Bool) : List α → List (List α × List α)
  | [] => []
  | first :: rest =>
    if accept first then
      let longer := (runMany accept greedy rest).map fun split => (first :: split.1, split.2)
      if greedy then longer ++ [([first], rest)] else ([first], rest) :: longer
    else []

/-- All ways to match, the preferred ones first. -/
def run : Pattern α → List α → List (Match α)
  | .empty, input => [⟨[], [], input⟩]
  | .item _, [] => []
  | .item accept, first :: rest => if accept first then [⟨[first], [], rest⟩] else []
  | .many1 accept greedy, input =>
    (runMany accept greedy input).map fun split => ⟨split.1, [], split.2⟩
  | .seq first second, input =>
    (first.run input).flatMap fun front => (second.run front.rest).map fun back =>
      ⟨front.consumed ++ back.consumed, front.groups ++ back.groups, back.rest⟩
  | .alt first second, input => first.run input ++ second.run input
  | .group inner, input => (inner.run input).map fun found =>
      { found with groups := found.consumed :: found.groups }

/-- The groups of the preferred match of the whole input. -/
def regexMatch (pattern : Pattern α) (input : List α) : Option (List (List α)) :=
  ((pattern.run input).find? fun found => found.rest.isEmpty).map (·.groups)

/-- One pattern after the other. -/
def sequence (patterns : List (Pattern α)) : Pattern α := patterns.foldr .seq .empty

/-- Exactly these items. -/
def literal [DecidableEq α] (items : List α) : Pattern α :=
  sequence (items.map fun own => .item (· = own))

/-- At most once, and once if possible. -/
def optional (inner : Pattern α) : Pattern α := .alt inner .empty

/-- The texts that a pattern describes, with their groups. -/
def Matches : Pattern α → List α → List (List α) → Prop
  | .empty, text, groups => text = [] ∧ groups = []
  | .item accept, text, groups => ∃ own, accept own = true ∧ text = [own] ∧ groups = []
  | .many1 accept _, text, groups => text ≠ [] ∧ (∀ own ∈ text, accept own = true) ∧ groups = []
  | .seq first second, text, groups => ∃ front behind early late, first.Matches front early ∧
      second.Matches behind late ∧ text = front ++ behind ∧ groups = early ++ late
  | .alt first second, text, groups => first.Matches text groups ∨ second.Matches text groups
  | .group inner, text, groups => ∃ own, inner.Matches text own ∧ groups = text :: own

/-- The front parts of accepted items, one or more. -/
theorem mem_runMany_iff {accept : α → Bool} {greedy : Bool} {input : List α}
    {split : List α × List α} :
    split ∈ runMany accept greedy input ↔
      split.1 ++ split.2 = input ∧ split.1 ≠ [] ∧ ∀ own ∈ split.1, accept own = true := by
  obtain ⟨front, behind⟩ := split
  simp only
  induction input generalizing front with
  | nil => simp +contextual [runMany]
  | cons first rest ih =>
    -- The first item alone, or the first item and a front part of the rest.
    have cases_ : (front, behind) ∈ runMany accept greedy (first :: rest) ↔
        accept first = true ∧ ((front = [first] ∧ behind = rest) ∨
          ∃ more, front = first :: more ∧ (more, behind) ∈ runMany accept greedy rest) := by
      have longer : (front, behind) ∈ (runMany accept greedy rest).map (fun split =>
        (first :: split.1, split.2)) ↔
          ∃ more, front = first :: more ∧ (more, behind) ∈ runMany accept greedy rest := by
        simp only [List.mem_map, Prod.mk.injEq, Prod.exists]
        constructor
        · rintro ⟨more, others, member, rfl, rfl⟩
          exact ⟨more, rfl, member⟩
        · rintro ⟨more, rfl, member⟩
          exact ⟨more, behind, member, rfl, rfl⟩
      rw [← longer, runMany]
      cases accept first with
      | false => simp
      | true => cases greedy <;> simp [or_comm]
    rw [cases_]
    cases front with
    | nil => simp
    | cons head more =>
      simp only [List.cons.injEq, List.cons_append, ne_eq, reduceCtorEq,
        not_false_eq_true, true_and,
        List.mem_cons, forall_eq_or_imp]
      constructor
      · rintro ⟨accepted, ⟨⟨rfl, rfl⟩, rfl⟩ | ⟨_, ⟨rfl, rfl⟩, member⟩⟩
        · simp [accepted]
        · obtain ⟨joined, -, all_⟩ := (ih more).mp member
          exact ⟨⟨rfl, joined⟩, accepted, all_⟩
      · rintro ⟨⟨rfl, joined⟩, accepted, all_⟩
        refine ⟨accepted, ?_⟩
        by_cases alone : more = []
        · exact .inl ⟨⟨rfl, alone⟩, by simpa [alone] using joined⟩
        · exact .inr ⟨more, ⟨rfl, rfl⟩, (ih more).mpr ⟨joined, alone, all_⟩⟩

/-- The ways to match are the front parts that the pattern describes. -/
theorem mem_run_iff {pattern : Pattern α} {input : List α} {found : Match α} :
    found ∈ pattern.run input ↔
      found.consumed ++ found.rest = input ∧ pattern.Matches found.consumed found.groups := by
  induction pattern generalizing input found with
  | empty =>
    obtain ⟨consumed, groups, rest⟩ := found
    simp only [run, Matches, List.mem_singleton, Match.mk.injEq]
    grind
  -- One item, and one that is accepted.
  | item accept =>
    obtain ⟨consumed, groups, rest⟩ := found
    cases input with
    | nil => simp [run, Matches]; grind
    | cons first others =>
      simp only [run, Matches]
      cases accepted : accept first with
      | false => simp; grind
      | true => simp; grind
  -- A run of items is a run of at least one, whatever order the engine tries.
  | many1 accept greedy =>
    obtain ⟨consumed, groups, rest⟩ := found
    simp only [run, Matches, List.mem_map, Match.mk.injEq]
    constructor
    · rintro ⟨split, member, rfl, rfl, rfl⟩
      obtain ⟨joined, some_, all_⟩ := mem_runMany_iff.mp member
      exact ⟨joined, some_, all_, rfl⟩
    · rintro ⟨joined, some_, all_, rfl⟩
      exact ⟨(consumed, rest), mem_runMany_iff.mpr ⟨joined, some_, all_⟩, rfl, rfl, rfl⟩
  -- The rest that the first part leaves is the input of the second.
  | seq first second firstRun secondRun =>
    obtain ⟨consumed, groups, rest⟩ := found
    simp only [run, Matches, List.mem_flatMap, List.mem_map]
    constructor
    · rintro ⟨front, frontRun, back, backRun, same⟩
      obtain ⟨frontJoined, frontMatches⟩ := firstRun.mp frontRun
      obtain ⟨backJoined, backMatches⟩ := secondRun.mp backRun
      obtain ⟨rfl, rfl, rfl⟩ := Match.mk.inj same
      refine ⟨?_, _, _, _, _, frontMatches, backMatches, rfl, rfl⟩
      rw [List.append_assoc, backJoined, frontJoined]
    · rintro ⟨joined, front, behind, early, late, frontMatches, backMatches, rfl, rfl⟩
      refine ⟨⟨front, early, behind ++ rest⟩, firstRun.mpr ⟨?_, frontMatches⟩, ⟨behind, late, rest⟩,
        secondRun.mpr ⟨rfl, backMatches⟩, rfl⟩
      rw [← joined, List.append_assoc]
  | alt first second firstRun secondRun =>
    simp only [run, Matches, List.mem_append, firstRun, secondRun, and_or_left]
  -- A group keeps what its inner pattern has consumed, in front of the inner groups.
  | group inner innerRun =>
    obtain ⟨consumed, groups, rest⟩ := found
    simp only [run, Matches, List.mem_map]
    constructor
    · rintro ⟨own, ownRun, same⟩
      obtain ⟨joined, ownMatches⟩ := innerRun.mp ownRun
      obtain ⟨rfl, rfl, rfl⟩ := Match.mk.inj same
      exact ⟨joined, _, ownMatches, rfl⟩
    · rintro ⟨joined, own, ownMatches, rfl⟩
      exact ⟨⟨consumed, own, rest⟩, innerRun.mpr ⟨joined, ownMatches⟩, rfl⟩

/-- The groups that are found are those of a match of the whole input. -/
theorem matches_of_regexMatch {pattern : Pattern α} {input : List α} {groups : List (List α)}
    (found : pattern.regexMatch input = some groups) : pattern.Matches input groups := by
  obtain ⟨own, first, rfl⟩ := Option.map_eq_some_iff.mp found
  have whole : own.rest = [] := by simpa using List.find?_some first
  obtain ⟨joined, described⟩ := mem_run_iff.mp (List.mem_of_find?_eq_some first)
  rw [whole, List.append_nil] at joined
  exact joined ▸ described

/-- A match of the whole input is found where there is one. -/
theorem regexMatch_isSome {pattern : Pattern α} {input : List α} {groups : List (List α)}
    (described : pattern.Matches input groups) :
    ∃ found, pattern.regexMatch input = some found := by
  have member : (⟨input, groups, []⟩ : Match α) ∈ pattern.run input :=
    mem_run_iff.mpr ⟨List.append_nil input, described⟩
  have some_ : ((pattern.run input).find? fun own => own.rest.isEmpty).isSome :=
    List.find?_isSome.mpr ⟨_, member, rfl⟩
  obtain ⟨own, first⟩ := Option.isSome_iff_exists.mp some_
  exact ⟨own.groups, by rw [regexMatch, first, Option.map_some]⟩

/-- The empty sequence describes the empty text. -/
theorem matches_sequence_nil {text : List α} {groups : List (List α)} :
    (sequence [] : Pattern α).Matches text groups ↔ text = [] ∧ groups = [] := Iff.rfl

/-- A sequence describes its first pattern's texts followed by the others'. -/
theorem matches_sequence_cons {first : Pattern α} {patterns : List (Pattern α)} {text : List α}
    {groups : List (List α)} :
    (sequence (first :: patterns)).Matches text groups ↔ ∃ front behind early late,
      first.Matches front early ∧
      (sequence patterns).Matches behind late ∧ text = front ++ behind ∧ groups = early ++ late :=
  Iff.rfl

/-- A literal describes itself. -/
theorem matches_literal [DecidableEq α] {items text : List α} {groups : List (List α)} :
    (literal items).Matches text groups ↔ text = items ∧ groups = [] := by
  induction items generalizing text groups with
  | nil => exact Iff.rfl
  -- The first item takes itself, and the rest take the rest.
  | cons own items ih =>
    have unfolded : (literal (own :: items)).Matches text groups ↔ ∃ front behind early late,
        (item (· = own)).Matches front early ∧ (literal items).Matches behind late ∧
          text = front ++ behind ∧
          groups = early ++ late := Iff.rfl
    rw [unfolded]
    simp only [ih, Matches, decide_eq_true_eq]
    constructor
    · rintro ⟨_, _, _, _, ⟨_, rfl, rfl, rfl⟩, ⟨rfl, rfl⟩, rfl, rfl⟩
      exact ⟨rfl, rfl⟩
    · rintro ⟨rfl, rfl⟩
      exact ⟨[own], items, [], [], ⟨own, rfl, rfl, rfl⟩, ⟨rfl, rfl⟩, rfl, rfl⟩

end Pattern

end Loglib
