import Mathlib

/-! Runs of a partial step function: invariants, clean runs, and relations from start to end; and
runs of a total one. -/

namespace Loglib

section Runs

variable {σ ι : Type*} {step : σ → ι → Option σ}

/-- Every step of the run meets a condition on the state it starts from. -/
def CleanRun (step : σ → ι → Option σ) (Clean : σ → ι → Prop) : σ → List ι → Prop
  | _, [] => True
  | state, item :: rest =>
    Clean state item ∧ ∀ next, step state item = some next → CleanRun step Clean next rest

/-- The first step of a run that ends, and the rest of it. -/
theorem foldlM_cons_some {state final : σ} {item : ι} {rest : List ι}
    (done : (item :: rest).foldlM step state = some final) :
    ∃ next, step state item = some next ∧ rest.foldlM step next = some final := by
  rw [List.foldlM_cons] at done
  exact Option.bind_eq_some_iff.mp done

/-- A run over a concatenation stops between the two parts. -/
theorem foldlM_append_some {state final : σ} {first second : List ι}
    (done : (first ++ second).foldlM step state = some final) :
    ∃ middle, first.foldlM step state = some middle ∧ second.foldlM step middle = some final := by
  rw [List.foldlM_append] at done
  exact Option.bind_eq_some_iff.mp done

/-- What clean steps preserve, clean runs preserve. -/
theorem CleanRun.invariant {Clean : σ → ι → Prop} (Inv : σ → Prop)
    (preserves : ∀ state item next, Inv state → Clean state item → step state item = some next →
      Inv next)
    {items : List ι} {state final : σ} (clean : CleanRun step Clean state items)
    (holds : Inv state) (done : items.foldlM step state = some final) : Inv final := by
  -- The induction is on the steps, and each step hands the invariant to the rest.
  induction items generalizing state with
  | nil =>
    have same : state = final := by simpa using done
    exact same ▸ holds
  | cons item rest ih =>
    obtain ⟨next, first, later⟩ := foldlM_cons_some done
    exact ih (clean.2 next first) (preserves state item next holds clean.1 first) later

/-- A clean run over a concatenation is clean in both parts. -/
theorem CleanRun.append {Clean : σ → ι → Prop} {state : σ} {first second : List ι}
    (clean : CleanRun step Clean state (first ++ second)) :
    CleanRun step Clean state first ∧
      ∀ middle, first.foldlM step state = some middle → CleanRun step Clean middle second := by
  -- The first part ends in the state that the second one starts from.
  induction first generalizing state with
  | nil =>
    refine ⟨trivial, fun middle done => ?_⟩
    obtain rfl : state = middle := by simpa using done
    exact clean
  | cons item rest ih =>
    refine ⟨⟨clean.1, fun next done => (ih (clean.2 next done)).1⟩, fun middle done => ?_⟩
    obtain ⟨next, begun, later⟩ := foldlM_cons_some done
    exact (ih (clean.2 next begun)).2 middle later

/-- A condition that every state meets makes every run clean. -/
theorem CleanRun.of_forall {Clean : σ → ι → Prop} (always : ∀ state item, Clean state item)
    (state : σ) (items : List ι) : CleanRun step Clean state items := by
  induction items generalizing state with
  | nil => trivial
  | cons item rest ih => exact ⟨always state item, fun next _ => ih next⟩

/-- A clean run with one more kind of cleanness that the invariant provides. -/
theorem CleanRun.imp {Clean Other : σ → ι → Prop} {Inv : σ → Prop}
    (preserves : ∀ state item next, Inv state → Clean state item → step state item = some next →
      Inv next)
    (gives : ∀ state item, Inv state → Clean state item → Other state item)
    {items : List ι} {state : σ} (holds : Inv state) (clean : CleanRun step Clean state items) :
    CleanRun step Other state items := by
  induction items generalizing state with
  | nil => trivial
  | cons item rest ih =>
    exact ⟨gives state item holds clean.1, fun next first =>
      ih (preserves state item next holds clean.1 first) (clean.2 next first)⟩

/-- Where the clean steps are those that keep a property, a run is clean if and only if the property
holds of every state on its way. -/
theorem cleanRun_iff_forall {Inv Good : σ → Prop} {Clean : σ → ι → Prop}
    (preserves : ∀ state item next, Inv state → Clean state item → step state item = some next →
      Inv next)
    (good : ∀ state, Inv state → Good state)
    (fails : ∀ state item next, Inv state → step state item = some next → Good next →
      Clean state item)
    {items : List ι} {state final : σ} (holds : Inv state)
    (done : items.foldlM step state = some final) :
    CleanRun step Clean state items ↔
      ∀ first rest middle, items = first ++ rest → first.foldlM step state = some middle →
        Good middle := by
  constructor
  · rintro clean first rest middle rfl begun
    exact good middle (clean.append.1.invariant Inv preserves holds begun)
  · intro always
    induction items generalizing state with
    | nil => trivial
    | cons item rest ih =>
      obtain ⟨next, begun, later⟩ := foldlM_cons_some done
      have one : [item].foldlM step state = some next := by simp [begun]
      have clean := fails state item next holds begun (always [item] rest next rfl one)
      refine ⟨clean, fun other same => ?_⟩
      obtain rfl : next = other := Option.some.inj (begun.symm.trans same)
      -- The states of the rest are states of the whole.
      refine ih (preserves state item next holds clean begun) later
        fun first others middle cut ran => ?_
      refine always (item :: first) others middle (by rw [cut, List.cons_append]) ?_
      rw [List.foldlM_cons, begun]
      exact ran

/-- What every step preserves, every run preserves. -/
theorem foldlM_invariant {Inv : σ → Prop}
    (preserves : ∀ state item next, Inv state → step state item = some next → Inv next)
    {items : List ι} {state final : σ} (holds : Inv state)
    (done : items.foldlM step state = some final) : Inv final := by
  have clean : CleanRun step (fun _ _ => True) state items :=
    .of_forall (fun _ _ => trivial) state items
  exact clean.invariant _ (fun state item next holds _ =>
    preserves state item next holds) holds done

/-- A total step over a list preserves what it preserves item by item. -/
theorem foldl_invariant {step : σ → ι → σ} (Inv : σ → Prop) {items : List ι} {state : σ}
    (preserves : ∀ state, ∀ item ∈ items, Inv state → Inv (step state item))
    (holds : Inv state) : Inv (items.foldl step state) := by
  induction items generalizing state with
  | nil => exact holds
  | cons item rest ih =>
    refine ih (fun state item member => preserves state item (List.mem_cons_of_mem _ member)) ?_
    exact preserves state item (List.mem_cons_self ..) holds

end Runs

section TotalRuns

variable {σ ι γ : Type*} {step : σ → ι → σ} {Follows : σ → ι → Prop} {state : σ} {items : List ι}

/-- Every item of a run of total steps meets a condition on the state before it. -/
def FollowedRun (step : σ → ι → σ) (Follows : σ → ι → Prop) : σ → List ι → Prop
  | _, [] => True
  | state, item :: rest => Follows state item ∧ FollowedRun step Follows (step state item) rest

/-- The first items of a run meet their conditions. -/
theorem FollowedRun.take (followed : FollowedRun step Follows state items) (count : Nat) :
    FollowedRun step Follows state (items.take count) := by
  induction items generalizing state count with
  | nil => rwa [List.take_nil]
  | cons item rest ih =>
    cases count with
    | zero => trivial
    | succ count => exact ⟨followed.1, ih followed.2 count⟩

/-- What steps that meet their condition preserve, along with what the items add up to, the run
preserves. -/
theorem FollowedRun.invariant_with {Inv : σ → γ → Prop} {add : γ → ι → γ}
    (preserves : ∀ state sum item, Inv state sum → Follows state item →
    Inv (step state item) (add sum item))
    (followed : FollowedRun step Follows state items) {sum : γ} (holds : Inv state sum) :
    Inv (items.foldl step state) (items.foldl add sum) := by
  -- The induction is on the items, and each step hands the invariant to the rest.
  induction items generalizing state sum with
  | nil => exact holds
  | cons item rest ih => exact ih followed.2 (preserves state sum item holds followed.1)

/-- What steps that meet their condition preserve, the run preserves. -/
theorem FollowedRun.invariant {Inv : σ → Prop}
    (preserves : ∀ state item, Inv state → Follows state item → Inv (step state item))
    (followed : FollowedRun step Follows state items) (holds : Inv state) :
    Inv (items.foldl step state) :=
  @invariant_with σ ι Unit step Follows state items (fun state _ => Inv state) (fun _ _ => ())
    (fun state _ item => preserves state item) followed () holds

end TotalRuns

end Loglib
