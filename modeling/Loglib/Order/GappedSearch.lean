import Mathlib

/-! Binary search over positions of which some have no key. -/

namespace Loglib.GappedSearch

section Keys

variable {α : Type*} {key : Nat → Option α}

/-- The first of some positions that has a key. -/
def firstKeyed (key : Nat → Option α) (positions : List Nat) : Option (Nat × α) :=
  positions.findSome? fun position => (key position).map (position, ·)

/-- Without a first key there is none. -/
theorem firstKeyed_eq_none {positions : List Nat} (none_ : firstKeyed key positions = none) :
    ∀ position ∈ positions, key position = none := by
  intro position listed
  have missing := List.findSome?_eq_none_iff.mp none_ position listed
  simpa using missing

/-- The first key is one of the positions. -/
theorem firstKeyed_eq_some {positions : List Nat} {probe : Nat} {value : α}
    (found : firstKeyed key positions = some (probe, value)) :
    probe ∈ positions ∧ key probe = some value := by
  obtain ⟨position, listed, same⟩ := List.exists_of_findSome?_eq_some found
  obtain ⟨held, keyed, equal⟩ := Option.map_eq_some_iff.mp same
  obtain ⟨rfl, rfl⟩ := Prod.mk.inj equal
  exact ⟨listed, keyed⟩

end Keys

variable {α : Type*} [LinearOrder α]

/-- The keys do not descend from position to position. -/
def Ascends (key : Nat → Option α) : Prop :=
  ∀ first second, first < second → ∀ left ∈ key first, ∀ right ∈ key second, left ≤ right

/-- Where the keys from a target on start, in at most so many turns. A turn that meets a gap walks
forward to the next key. -/
def lowerBound (key : Nat → Option α) (target : α) : Nat → Nat → Nat → Nat
  | 0, lo, _ => lo
  | turns + 1, lo, hi =>
    if lo < hi then
      let mid := lo + (hi - lo) / 2
      match firstKeyed key (List.range' mid (hi - mid)) with
      | none => lowerBound key target turns lo mid
      | some (probe, value) =>
        if value < target then lowerBound key target turns (probe + 1) hi
          else lowerBound key target turns lo probe
    else lo

variable {key : Nat → Option α} {target : α}

/-- A position splits the keys at a target. -/
structure Splits (key : Nat → Option α) (target : α) (position : Nat) : Prop where
  below : ∀ before, before < position → ∀ value ∈ key before, value < target
  above : ∀ behind, position ≤ behind → ∀ value ∈ key behind, target ≤ value

/-- The search keeps smaller keys in front of its range and the others behind it, until
the range is empty. -/
theorem lowerBound_splits (ascends : Ascends key) {turns lo hi : Nat} (enough : hi - lo ≤ turns)
    (ordered : lo ≤ hi)
    (below : ∀ before, before < lo → ∀ value ∈ key before, value < target)
    (above : ∀ behind, hi ≤ behind → ∀ value ∈ key behind, target ≤ value) :
    Splits key target (lowerBound key target turns lo hi) := by
  induction turns generalizing lo hi with
  | zero =>
    obtain rfl : lo = hi := by omega
    exact ⟨below, above⟩
  | succ turns ih =>
    rw [lowerBound]
    split
    · rename_i open_
      obtain ⟨mid, middle⟩ : ∃ mid, lo + (hi - lo) / 2 = mid := ⟨_, rfl⟩
      have inside : lo ≤ mid ∧ mid < hi := by omega
      rw [middle]
      dsimp only
      split
      · -- Nothing from the middle on has a key, so the range ends there.
        rename_i missing
        refine ih (by omega) inside.1 below fun behind after value keyed => ?_
        by_cases within : behind < hi
        · have gap := firstKeyed_eq_none missing behind (List.mem_range'_1.mpr (by omega))
          rw [gap] at keyed
          cases keyed
        · exact above behind (by omega) value keyed
      · rename_i probe value found
        obtain ⟨listed, probed⟩ := firstKeyed_eq_some found
        obtain ⟨first, last⟩ := List.mem_range'_1.mp listed
        split
        · -- All keys up to the probed one are smaller.
          rename_i small
          refine ih (by omega) (by omega) (fun before in_ held keyed => ?_) above
          rcases Nat.lt_or_ge before probe with less | reached
          · exact (ascends before probe less held keyed value probed).trans_lt small
          · obtain rfl : before = probe := by omega
            obtain rfl := Option.some.inj (probed.symm.trans keyed)
            exact small
        · -- All keys from the probed one on are large enough.
          rename_i large
          refine ih (by omega) (by omega) below fun behind after held keyed => ?_
          rcases Nat.eq_or_lt_of_le after with same | less
          · subst same
            obtain rfl := Option.some.inj (probed.symm.trans keyed)
            exact not_lt.mp large
          · exact (not_lt.mp large).trans (ascends probe behind less value probed held keyed)
    · obtain rfl : lo = hi := by omega
      exact ⟨below, above⟩

end Loglib.GappedSearch
