import Loglib.Basic.Runs
import Loglib.Parsers.RegexTemplates

/-! Template probes: a probe that starts after new extras were set compiles these or later ones. -/

namespace Loglib

/-- The extras of one registry build, `none` for the lazy build of the first use. -/
abbrev RegistryBuild := Option (List RegexTemplate)

/-- The compiled templates of one registry, under the counter value read before the registry. -/
structure ProbeSnapshot (γ : Type) where
  source : List RegexTemplate
  compiled : List (CompiledTemplate γ)
  generation : Nat
deriving DecidableEq

/-- Where a thread is between two steps. -/
inductive TemplatePhase where
  | idle
  /-- New extras are in the registry, and the counter is not yet bumped. -/
  | setting (extras : List RegexTemplate) (build : Nat)
  /-- A probe has read the counter. -/
  | checking (generation : Nat)
  /-- The cache has no snapshot of that generation. -/
  | reading (generation : Nat)
  /-- There is no registry either. -/
  | building (generation : Nat)
  /-- The probe has built the registry, and the counter is not yet bumped. -/
  | bumping (generation : Nat) (source : List RegexTemplate)
  /-- The probe compiles a registry for the cache. -/
  | compiling (generation : Nat) (source : List RegexTemplate)
deriving DecidableEq

/-- What a caller sees. -/
inductive TemplateEvent (ι γ : Type) where
  /-- `SetExtraRegexTemplates` returned; its registry was the build of that number. -/
  | setReturned (thread : ι) (extras : List RegexTemplate) (build : Nat)
  | probeStarted (thread : ι)
  | probeReturned (thread : ι) (snapshot : ProbeSnapshot γ)
deriving DecidableEq

/-- The registry with its counter and lock, the cache, the threads, and what they have done. -/
structure TemplateState (ι γ : Type) where
  generation : Nat
  registry : Option (List RegexTemplate)
  extras : List RegexTemplate
  /-- The thread inside a rebuild, which holds the registry mutex exclusively. -/
  locked : Option ι
  cached : Option (ProbeSnapshot γ)
  phases : ι → TemplatePhase
  /-- Every build of the registry so far. -/
  builds : List RegistryBuild
  history : List (TemplateEvent ι γ)

/-- One step of one thread: a section under a mutex, or an access of the counter. -/
inductive TemplateStep (ι : Type) where
  | setExtras (thread : ι) (extras : List RegexTemplate)
  | bump (thread : ι)
  | startProbe (thread : ι)
  | checkCache (thread : ι)
  | readRegistry (thread : ι)
  | buildRegistry (thread : ι)
  | storeCache (thread : ι)

namespace TemplateState

variable {ι γ : Type}

/-- The state before any call. -/
def initial : TemplateState ι γ := ⟨0, none, [], none, none, fun _ => .idle, [], []⟩

/-- A caller sees something. -/
def records (state : TemplateState ι γ) (event : TemplateEvent ι γ) : TemplateState ι γ :=
  { state with history := state.history ++ [event] }

variable [DecidableEq ι]

/-- A thread goes on to another phase. -/
def enter (state : TemplateState ι γ) (thread : ι) (phase : TemplatePhase) : TemplateState ι γ :=
  { state with phases := Function.update state.phases thread phase }

/-- `RebuildLocked` up to the bump of the counter. -/
def rebuild (catalog : TemplateCatalog γ) (state : TemplateState ι γ) (thread : ι)
    (build : RegistryBuild) :
    TemplateState ι γ :=
  { state with
    registry := some (catalog.ordered state.extras)
    locked := some thread
    builds := state.builds ++ [build] }

/-- The bump of the counter, after which the mutex is released. -/
def release (state : TemplateState ι γ) : TemplateState ι γ :=
  { state with generation := state.generation + 1, locked := none }

/-- A probe returns a snapshot. -/
def probed (state : TemplateState ι γ) (thread : ι) (snapshot : ProbeSnapshot γ) :
    TemplateState ι γ :=
  (state.enter thread .idle).records (.probeReturned thread snapshot)

/-- The cached snapshot, if it has the generation. -/
def cachedFor (state : TemplateState ι γ) (generation : Nat) : Option (ProbeSnapshot γ) :=
  state.cached.filter fun snapshot => snapshot.generation = generation

/-- One step of one thread, `none` where a lock blocks it or the thread is elsewhere. -/
def step (catalog : TemplateCatalog γ) (state : TemplateState ι γ) :
    TemplateStep ι → Option (TemplateState ι γ)
  | .setExtras thread extras =>
    -- The setter holds the lock until it has bumped the counter.
    if state.phases thread = .idle ∧ state.locked = none then
      some ((rebuild catalog { state with extras := extras } thread (some extras)).enter thread
        (.setting extras state.builds.length))
    else none
  | .bump thread =>
    match state.phases thread with
    | .setting extras build =>
      some ((state.release.enter thread .idle).records (.setReturned thread extras build))
    | .bumping generation source => some (state.release.enter thread (.compiling generation source))
    | _ => none
  | .startProbe thread =>
    if state.phases thread = .idle then
      some ((state.enter thread (.checking state.generation)).records (.probeStarted thread))
    else none
  -- The cache answers only for the generation that was loaded at the start.
  | .checkCache thread =>
    match state.phases thread with
    | .checking generation =>
      match state.cachedFor generation with
      | some snapshot => some (state.probed thread snapshot)
      | none => some (state.enter thread (.reading generation))
    | _ => none
  | .readRegistry thread =>
    match state.phases thread with
    | .reading generation =>
      if state.locked = none then
        match state.registry with
        | some source => some (state.enter thread (.compiling generation source))
        | none => some (state.enter thread (.building generation))
      else none
    | _ => none
  | .buildRegistry thread =>
    match state.phases thread with
    -- Another thread may have built the registry since it was read.
    | .building generation =>
      if state.locked = none then
        match state.registry with
        | some source => some (state.enter thread (.compiling generation source))
        | none => some ((state.rebuild catalog thread none).enter thread
            (.bumping generation (catalog.ordered state.extras)))
      else none
    | _ => none
  | .storeCache thread =>
    -- Another thread may have stored its snapshot meanwhile; it is taken instead.
    match state.phases thread with
    | .compiling generation source =>
      match state.cachedFor generation with
      | some snapshot => some (state.probed thread snapshot)
      | none =>
        let fresh := ⟨source, catalog.compileAll source, generation⟩
        some ({ state with cached := some fresh }.probed thread fresh)
    | _ => none

end TemplateState

section Statement

variable {ι γ : Type}

/-- A probe of the thread started right after the first events, and has not returned. -/
def Probing (thread : ι) (before history : List (TemplateEvent ι γ)) : Prop :=
  ∃ between, history = before ++ .probeStarted thread :: between ∧
    ∀ snapshot, .probeReturned thread snapshot ∉ between

/-- The list is the merged one of that build or of a later one, and comes from a call. -/
def UpToDate (catalog : TemplateCatalog γ) (builds : List RegistryBuild) (build : Nat)
    (source : List RegexTemplate) : Prop :=
  ∃ later ≥ build, ∃ extras, builds[later]? = some (some extras) ∧ source = catalog.ordered extras

/-- No probe uses templates older than the calls that had returned when it started. -/
structure DetectsFresh (catalog : TemplateCatalog γ) (state : TemplateState ι γ) : Prop where
  /-- The build that a call refers to has the extras of the call. -/
  returned : ∀ thread extras build, .setReturned thread extras build ∈ state.history →
    state.builds[build]? = some (some extras)
  /-- A call that returned before the probe started is seen by the probe. -/
  fresh : ∀ before during after prober snapshot,
    state.history = during ++ .probeReturned prober snapshot :: after →
      Probing prober before during →
    ∀ thread extras build, .setReturned thread extras build ∈ before →
      UpToDate catalog state.builds build snapshot.source
  /-- The compiled list is a merged list without the entries that do not probe. -/
  compiled : ∀ thread snapshot, .probeReturned thread snapshot ∈ state.history →
    (∃ build ∈ state.builds, snapshot.source = catalog.ordered (build.getD [])) ∧
      snapshot.compiled.map CompiledTemplate.source = snapshot.source.filter catalog.Probes ∧
      ∀ entry ∈ snapshot.compiled, catalog.compile entry.source.pattern = some entry.compiled
  /-- A merged list is the built-ins by priority and then the extras by priority. -/
  merged : ∀ extras, ∃ first second, catalog.ordered extras = first ++ second ∧
    ByPriority (catalog.embedded.filterMap catalog.parseTemplate) first ∧ ByPriority extras second

end Statement

section Invariant

variable {ι γ : Type} {catalog : TemplateCatalog γ}

/-- The event that ends a history is the event in its middle, or comes after that. -/
theorem concat_eq_append_cons {α : Type*} {history before after : List α} {last event : α}
    (cut : history ++ [last] = before ++ event :: after) :
    history = before ∧ last = event ∧ after = [] ∨
      ∃ rest, after = rest ++ [last] ∧ history = before ++ event :: rest := by
  -- The event is the last one, or stands in front of it.
  rcases List.eq_nil_or_concat after with rfl | ⟨rest, other, rfl⟩
  · obtain ⟨same, ends⟩ := List.append_inj' cut rfl
    exact .inl ⟨same, by simpa using ends, rfl⟩
  · rw [List.concat_eq_append, ← List.cons_append, ← List.append_assoc] at cut
    obtain ⟨same, ends⟩ := List.append_inj' cut rfl
    obtain rfl : last = other := by simpa using ends
    exact .inr ⟨rest, List.concat_eq_append .., same⟩

/-- A probe goes on through every event but its own return. -/
theorem Probing.of_concat {thread : ι} {before history : List (TemplateEvent ι γ)}
    {event : TemplateEvent ι γ}
    (probing : Probing thread before (history ++ [event])) :
    event = .probeStarted thread ∧ before = history ∨
      Probing thread before history ∧ ∀ snapshot, event ≠ .probeReturned thread snapshot := by
  obtain ⟨between, cut, running⟩ := probing
  -- The probe has just started, or goes on while another event happens.
  rcases concat_eq_append_cons cut with ⟨same, started, -⟩ | ⟨rest, rfl, same⟩
  · exact .inl ⟨started, same.symm⟩
  · refine .inr ⟨⟨rest, same, fun snapshot member =>
      running snapshot (List.mem_append_left _ member)⟩, ?_⟩
    intro snapshot ended
    exact running snapshot (by simp [ended])

/-- The probe list is the one of a build that is not older than the generation. -/
def MergedSince (catalog : TemplateCatalog γ) (builds : List RegistryBuild) (generation : Nat)
    (source : List RegexTemplate) : Prop :=
  ∃ (position : Nat) (build : RegistryBuild), builds[position]? = some build ∧
    source = catalog.ordered (build.getD []) ∧ generation ≤ position + 1

/-- Later builds change nothing for an earlier one. -/
theorem MergedSince.mono {builds : List RegistryBuild} {generation : Nat}
    {source : List RegexTemplate}
    (merged : MergedSince catalog builds generation source) (more : List RegistryBuild) :
    MergedSince catalog (builds ++ more) generation source := by
  obtain ⟨position, build, found, same, recent⟩ := merged
  have inside := (List.getElem?_eq_some_iff.mp found).1
  exact ⟨position, build, by rw [List.getElem?_append_left inside, found], same, recent⟩

/-- Later builds do not make a list out of date. -/
theorem UpToDate.mono {builds : List RegistryBuild} {build : Nat} {source : List RegexTemplate}
    (fresh : UpToDate catalog builds build source) (more : List RegistryBuild) :
    UpToDate catalog (builds ++ more) build source := by
  obtain ⟨later, recent, extras, found, same⟩ := fresh
  have inside := (List.getElem?_eq_some_iff.mp found).1
  exact ⟨later, recent, extras, by rw [List.getElem?_append_left inside, found], same⟩

/-- The snapshot is labelled with a generation that its registry is not older than. -/
structure ProbeSnapshot.From (catalog : TemplateCatalog γ) (builds : List RegistryBuild)
    (snapshot : ProbeSnapshot γ) : Prop where
  merged : MergedSince catalog builds snapshot.generation snapshot.source
  compiled : snapshot.compiled = catalog.compileAll snapshot.source

namespace TemplatePhase

/-- The thread holds the registry mutex. -/
def Holds : TemplatePhase → Prop
  | .setting _ _ | .bumping _ _ => True
  | _ => False

/-- The counter value of the probe the thread is in. -/
def generation : TemplatePhase → Option Nat
  | .idle | .setting _ _ => none
  | .checking generation | .reading generation | .building generation => some generation
  | .bumping generation _ | .compiling generation _ => some generation

/-- What the thread remembers is right for the builds so far. -/
def Recalls (catalog : TemplateCatalog γ) (builds : List RegistryBuild) (counter : Nat) :
    TemplatePhase → Prop
  | .idle => True
  | .setting extras build => builds[build]? = some (some extras)
  | .checking generation | .reading generation | .building generation => generation ≤ counter
  | .bumping generation source | .compiling generation source =>
    MergedSince catalog builds generation source

/-- Later builds and a higher counter change nothing for it. -/
theorem Recalls.mono {phase : TemplatePhase} {builds : List RegistryBuild} {counter higher : Nat}
    (recalls : phase.Recalls catalog builds counter) (more : List RegistryBuild)
    (grows : counter ≤ higher) :
    phase.Recalls catalog (builds ++ more) higher := by
  -- A later counter recalls what an earlier one did.
  cases phase with
  | idle => trivial
  | setting extras build =>
    have inside := (List.getElem?_eq_some_iff.mp recalls).1
    exact (List.getElem?_append_left inside).trans recalls
  | checking generation => exact Nat.le_trans recalls grows
  | reading generation => exact Nat.le_trans recalls grows
  | building generation => exact Nat.le_trans recalls grows
  | bumping generation source => exact MergedSince.mono recalls more
  | compiling generation source => exact MergedSince.mono recalls more

end TemplatePhase

namespace TemplateState

variable {state next : TemplateState ι γ}

/-- The registry, its counter and the cache. -/
structure SharedFresh (catalog : TemplateCatalog γ) (state : TemplateState ι γ) : Prop where
  /-- The counter lags by the build of the thread inside a rebuild. -/
  counted : state.builds.length = state.generation + if state.locked = none then 0 else 1
  slot : state.registry = state.builds.getLast?.map fun build => catalog.ordered (build.getD [])
  bare : state.builds = [] → state.extras = []
  /-- Only the first build can be the lazy one. -/
  called : ∀ position, 0 < position → state.builds[position]? ≠ some none
  cache : ∀ snapshot, state.cached = some snapshot → snapshot.From catalog state.builds

/-- One thread. -/
structure ThreadFresh (catalog : TemplateCatalog γ) (state : TemplateState ι γ)
    (thread : ι) : Prop where
  holder : (state.phases thread).Holds ↔ state.locked = some thread
  recalls : (state.phases thread).Recalls catalog state.builds state.generation
  /-- The counter value of a probe covers the calls that had returned when the probe started. -/
  started : ∀ before, Probing thread before state.history → ∃ generation,
    (state.phases thread).generation = some generation ∧
      ∀ other extras build, .setReturned other extras build ∈ before → build + 1 ≤ generation

/-- What the callers have seen. -/
structure HistoryFresh (catalog : TemplateCatalog γ) (state : TemplateState ι γ) : Prop where
  returned : ∀ thread extras build, .setReturned thread extras build ∈ state.history →
    state.builds[build]? = some (some extras) ∧ build + 1 ≤ state.generation
  fresh : ∀ before during after prober snapshot,
    state.history = during ++ .probeReturned prober snapshot :: after →
      Probing prober before during →
    ∀ thread extras build, .setReturned thread extras build ∈ before →
      UpToDate catalog state.builds build snapshot.source
  compiled : ∀ thread snapshot, .probeReturned thread snapshot ∈ state.history →
    snapshot.From catalog state.builds

/-- Everything that a run keeps. -/
structure Fresh (catalog : TemplateCatalog γ) (state : TemplateState ι γ) : Prop where
  shared : state.SharedFresh catalog
  thread : ∀ thread, state.ThreadFresh catalog thread
  history : state.HistoryFresh catalog

/-- Before any call there is nothing to be stale. -/
theorem initial_fresh : (initial : TemplateState ι γ).Fresh catalog where
  shared := ⟨rfl, rfl, fun _ => rfl, by simp [initial], by simp [initial]⟩
  thread := fun _ => ⟨by simp [initial, TemplatePhase.Holds], trivial, fun before probing => by
    obtain ⟨between, cut, -⟩ := probing
    simp [initial] at cut⟩
  history := ⟨by simp [initial], by simp [initial], by simp [initial]⟩

/-- An event that is neither the start nor the end of the thread's probe changes nothing
for the thread. -/
theorem ThreadFresh.frame {thread : ι} (fresh : state.ThreadFresh catalog thread)
    {more : List RegistryBuild}
    {events : List (TemplateEvent ι γ)} (phase : next.phases thread = state.phases thread)
    (lock : next.locked = some thread ↔ state.locked = some thread)
    (builds : next.builds = state.builds ++ more)
    (counter : state.generation ≤ next.generation)
    (history : next.history = state.history ++ events)
    (single : events.length ≤ 1) (silent : .probeStarted thread ∉ events) :
    next.ThreadFresh catalog thread where
  holder := by rw [phase, lock, fresh.holder]
  recalls := by
    rw [phase, builds]
    exact fresh.recalls.mono more counter
  started := by
    intro before probing
    rw [phase]
    rw [history] at probing
    -- The start of the probe is in the old part.
    cases events with
    | nil => exact fresh.started before (by simpa using probing)
    | cons event rest =>
      obtain rfl : rest = [] := List.eq_nil_of_length_eq_zero (by simpa using single)
      rcases probing.of_concat with ⟨started, -⟩ | ⟨running, -⟩
      · exact absurd (started ▸ List.mem_singleton_self _) silent
      · exact fresh.started before running

/-- An event that is no return of a probe leaves the promises as they are. -/
theorem HistoryFresh.frame (fresh : state.HistoryFresh catalog) {more : List RegistryBuild}
    (builds : next.builds = state.builds ++ more) (counter : state.generation ≤ next.generation)
    (same : next.history = state.history) : next.HistoryFresh catalog where
  returned := by
    intro thread extras build member
    -- What the counter and the list of builds grow by is behind what the history speaks of.
    obtain ⟨found, bound⟩ := fresh.returned thread extras build (same ▸ member)
    have inside := (List.getElem?_eq_some_iff.mp found).1
    exact ⟨by rw [builds, List.getElem?_append_left inside, found], Nat.le_trans bound counter⟩
  fresh := by
    intro before during after prober snapshot cut probing thread extras build member
    rw [builds]
    exact (fresh.fresh before during after prober snapshot (same ▸ cut) probing thread extras build
      member).mono more
  compiled := by
    intro thread snapshot member
    have made := fresh.compiled thread snapshot (same ▸ member)
    exact ⟨builds ▸ made.merged.mono more, made.compiled⟩

/-- A return of a call is about a finished build, and a return of a probe keeps what was
promised. -/
theorem HistoryFresh.records (fresh : state.HistoryFresh catalog) {event : TemplateEvent ι γ}
    (called : ∀ thread extras build, event = .setReturned thread extras build →
      state.builds[build]? = some (some extras) ∧ build + 1 ≤ state.generation)
    (probed : ∀ prober snapshot, event = .probeReturned prober snapshot →
    snapshot.From catalog state.builds ∧
      ∀ before, Probing prober before state.history → ∀ thread extras build,
        .setReturned thread extras build ∈ before →
          UpToDate catalog state.builds build snapshot.source) :
    (state.records event).HistoryFresh catalog where
  -- A call returns what has been built before it.
  returned := by
    intro thread extras build member
    rcases List.mem_append.mp member with old | new
    · exact fresh.returned thread extras build old
    · exact called thread extras build (List.mem_singleton.mp new).symm
  -- A probe that has just returned saw every build that was called before it began.
  fresh := by
    intro before during after prober snapshot cut probing
    rcases concat_eq_append_cons cut with ⟨same, last, -⟩ | ⟨rest, -, same⟩
    · exact (probed prober snapshot last).2 before (same ▸ probing)
    · exact fresh.fresh before during rest prober snapshot same probing
  -- What a probe has seen was compiled from some build.
  compiled := by
    intro prober snapshot member
    rcases List.mem_append.mp member with old | new
    · exact fresh.compiled prober snapshot old
    · exact (probed prober snapshot (List.mem_singleton.mp new).symm).1

/-- The list of a build that is not older than the generation is up to date for what the
generation covers. -/
theorem SharedFresh.upToDate (shared : state.SharedFresh catalog) {generation build : Nat}
    {extras source : List RegexTemplate}
    (merged : MergedSince catalog state.builds generation source)
    (found : state.builds[build]? = some (some extras)) (covers : build + 1 ≤ generation) :
    UpToDate catalog state.builds build source := by
  obtain ⟨position, origin, made, same, recent⟩ := merged
  have later : build ≤ position := by omega
  cases origin with
  | some given => exact ⟨position, later, given, made, same⟩
  | none =>
    -- The lazy build is the first one, and so the build of the call.
    have first : position = 0 := by
      by_contra positive
      exact shared.called position (Nat.pos_of_ne_zero positive) made
    obtain rfl : build = position := by omega
    exact absurd (found.symm.trans made) (by simp)

/-- What a step of one thread leaves to show. -/
theorem Fresh.of_step (fresh : state.Fresh catalog) {thread : ι} (more : List RegistryBuild)
    (events : List (TemplateEvent ι γ))
    (phases : ∀ other ≠ thread, next.phases other = state.phases other)
    (lock : ∀ other ≠ thread, next.locked = some other ↔ state.locked = some other)
    (builds : next.builds = state.builds ++ more) (counter : state.generation ≤ next.generation)
    (history : next.history = state.history ++ events) (single : events.length ≤ 1)
    (silent : ∀ other ≠ thread, .probeStarted other ∉ events) (shared : next.SharedFresh catalog)
    (own : next.ThreadFresh catalog thread) (told : next.HistoryFresh catalog) :
    next.Fresh catalog where
  shared := shared
  thread := by
    intro other
    -- Other threads are where they were.
    by_cases same : other = thread
    · exact same ▸ own
    · exact (fresh.thread other).frame (phases other same) (lock other same) builds counter
        history single
        (silent other same)
  history := told

/-- The cached snapshot of a generation is labelled with it. -/
theorem SharedFresh.cachedFor (shared : state.SharedFresh catalog) {generation : Nat}
    {snapshot : ProbeSnapshot γ}
    (found : state.cachedFor generation = some snapshot) :
    snapshot.From catalog state.builds ∧ snapshot.generation = generation := by
  obtain ⟨held, label⟩ := Option.filter_eq_some_iff.mp found
  exact ⟨shared.cache snapshot held, by simpa using label⟩

/-- The registry in the slot is the last build, which is not older than the counter. -/
theorem SharedFresh.merged (shared : state.SharedFresh catalog) {generation : Nat}
    {source : List RegexTemplate}
    (held : state.registry = some source) (bound : generation ≤ state.generation) :
    MergedSince catalog state.builds generation source := by
  obtain ⟨build, last, rfl⟩ := Option.map_eq_some_iff.mp (shared.slot.symm.trans held)
  have position := List.getLast?_eq_getElem? ▸ last
  have inside := (List.getElem?_eq_some_iff.mp position).1
  have counted := shared.counted
  exact ⟨state.builds.length - 1, build, position, rfl, by omega⟩

/-- A call returns after its build is counted. -/
theorem Fresh.setReturned (fresh : state.Fresh catalog) {thread : ι} {extras : List RegexTemplate}
    {build : Nat}
    (found : state.builds[build]? = some (some extras)) (bound : build + 1 ≤ state.generation) :
    (state.records (.setReturned thread extras build)).Fresh catalog where
  shared := ⟨fresh.shared.counted, fresh.shared.slot, fresh.shared.bare, fresh.shared.called,
    fresh.shared.cache⟩
  thread := fun other => (fresh.thread other).frame rfl Iff.rfl (List.append_nil _).symm le_rfl
    rfl le_rfl (by simp)
  history := by
    -- The set that returns has seen its own build, and every later one counts higher.
    refine fresh.history.records (fun other given position same => ?_) (by simp)
    cases same
    exact ⟨found, bound⟩

/-- A snapshot goes into the cache. -/
theorem Fresh.cache (fresh : state.Fresh catalog) {snapshot : ProbeSnapshot γ}
    (made : snapshot.From catalog state.builds) :
    { state with cached := some snapshot }.Fresh catalog where
  shared := ⟨fresh.shared.counted, fresh.shared.slot, fresh.shared.bare, fresh.shared.called,
    fun _ same => Option.some.inj same ▸ made⟩
  thread := fun thread => ⟨(fresh.thread thread).holder, (fresh.thread thread).recalls,
    (fresh.thread thread).started⟩
  history := ⟨fresh.history.returned, fresh.history.fresh, fresh.history.compiled⟩

/-- A thread within a probe does not hold the mutex, and recalls what its phase says. -/
theorem Fresh.within (fresh : state.Fresh catalog) {thread : ι} {phase : TemplatePhase}
    (reached : state.phases thread = phase) (lockless : ¬phase.Holds) :
    ¬(state.phases thread).Holds ∧ phase.Recalls catalog state.builds state.generation :=
  ⟨reached ▸ lockless, reached ▸ (fresh.thread thread).recalls⟩

variable [DecidableEq ι]

/-- A thread goes on within its probe, or outside any, without the mutex. -/
theorem Fresh.enter (fresh : state.Fresh catalog) {thread : ι} {phase : TemplatePhase}
    (outside : ¬(state.phases thread).Holds) (lockless : ¬phase.Holds)
    (recalls : phase.Recalls catalog state.builds state.generation)
    (same : phase.generation = (state.phases thread).generation) :
    (state.enter thread phase).Fresh catalog := by
  -- Only this thread changes its phase, and it holds no lock before or after.
  have entered : (state.enter thread phase).phases thread = phase := Function.update_self ..
  have shared := fresh.shared
  have own := fresh.thread thread
  refine fresh.of_step [] [] (fun other differs => Function.update_of_ne differs ..)
    (fun _ _ => Iff.rfl) (List.append_nil _).symm le_rfl (List.append_nil _).symm
      (Nat.zero_le _) (by simp)
    ⟨shared.counted, shared.slot, shared.bare, shared.called, shared.cache⟩ ⟨?_, ?_, ?_⟩
    ⟨fresh.history.returned, fresh.history.fresh, fresh.history.compiled⟩
  · rw [entered]
    exact ⟨fun holds => absurd holds lockless, fun held => absurd (own.holder.mpr held) outside⟩
  · rw [entered]
    exact recalls
  · intro before probing
    rw [entered, same]
    exact own.started before probing

/-- A probe returns a snapshot of the generation it has read. -/
theorem Fresh.probed (fresh : state.Fresh catalog) {thread : ι} {snapshot : ProbeSnapshot γ}
    (outside : ¬(state.phases thread).Holds) (made : snapshot.From catalog state.builds)
    (label : (state.phases thread).generation = some snapshot.generation) :
    (state.probed thread snapshot).Fresh catalog := by
  have entered : (state.probed thread snapshot).phases thread = .idle := Function.update_self ..
  have shared := fresh.shared
  have own := fresh.thread thread
  have untold : (state.enter thread .idle).HistoryFresh catalog :=
    ⟨fresh.history.returned, fresh.history.fresh, fresh.history.compiled⟩
  refine fresh.of_step [] [.probeReturned thread snapshot]
    (fun other differs => Function.update_of_ne differs ..) (fun _ _ =>
      Iff.rfl) (List.append_nil _).symm le_rfl rfl
    le_rfl (by simp) ⟨shared.counted, shared.slot, shared.bare, shared.called,
      shared.cache⟩ ⟨?_, ?_, ?_⟩
    (untold.records (by simp) ?_)
  · rw [entered]
    exact ⟨fun holds => holds.elim, fun held => absurd (own.holder.mpr held) outside⟩
  · rw [entered]
    trivial
  · -- The probe is over.
    intro before probing
    rcases probing.of_concat with ⟨started, -⟩ | ⟨-, running⟩
    · cases started
    · exact absurd rfl (running snapshot)
  · intro prober returned same
    cases same
    refine ⟨made, fun before probing other extras build member => ?_⟩
    -- The call returned before the counter was read, and the snapshot is not older than that.
    obtain ⟨generation, read, covers⟩ := own.started before probing
    obtain rfl : generation = snapshot.generation := Option.some.inj (read.symm.trans label)
    have earlier : .setReturned other extras build ∈ state.history := by
      obtain ⟨between, cut, -⟩ := probing
      exact cut ▸ List.mem_append_left _ member
    exact shared.upToDate made.merged (fresh.history.returned other extras build earlier).1
      (covers other extras build member)

/-- A thread rebuilds the registry and holds its mutex from then on. -/
theorem Fresh.rebuild (fresh : state.Fresh catalog) {thread : ι} {extras : List RegexTemplate}
    {build : RegistryBuild} {phase : TemplatePhase} (free : state.locked = none)
    (lists : build.getD [] = extras)
    (lazily : build = none → state.builds = []) (holds : phase.Holds)
    (recalls : phase.Recalls catalog (state.builds ++ [build]) state.generation)
    (same : phase.generation = (state.phases thread).generation) :
    ((rebuild catalog { state with extras := extras } thread build).enter thread phase).Fresh
      catalog := by
  have entered : ((TemplateState.rebuild catalog { state with extras := extras } thread build).enter
    thread
      phase).phases thread = phase := Function.update_self ..
  have shared := fresh.shared
  have counted : state.builds.length = state.generation := by simpa [free] using shared.counted
  refine fresh.of_step [build] [] (fun other differs =>
    Function.update_of_ne differs ..) ?_ rfl le_rfl
    (List.append_nil _).symm (Nat.zero_le _) (by simp) ⟨?_, ?_, ?_, ?_, ?_⟩ ⟨?_, ?_, ?_⟩
    (fresh.history.frame rfl le_rfl rfl)
  · intro other differs
    simp [TemplateState.rebuild, TemplateState.enter, free, Ne.symm differs]
  · simp [TemplateState.rebuild, TemplateState.enter, counted]
  · simp [TemplateState.rebuild, TemplateState.enter, lists]
  · simp [TemplateState.rebuild, TemplateState.enter]
  · -- A lazy build is the first one.
    intro position positive found
    change (state.builds ++ [build])[position]? = some none at found
    by_cases inside : position < state.builds.length
    · exact shared.called position positive (by rwa [List.getElem?_append_left inside] at found)
    · have ends : position < state.builds.length + 1 := by
        simpa using (List.getElem?_eq_some_iff.mp found).1
      obtain rfl : position = state.builds.length := by omega
      rw [List.getElem?_concat_length] at found
      have none_ := lazily (Option.some.inj found)
      rw [none_] at positive
      exact absurd positive (by simp)
  · intro snapshot held
    have made := shared.cache snapshot held
    exact ⟨made.merged.mono [build], made.compiled⟩
  · rw [entered]
    exact ⟨fun _ => rfl, fun _ => holds⟩
  · rw [entered]
    exact recalls
  · intro before probing
    rw [entered, same]
    exact (fresh.thread thread).started before probing

/-- The thread that rebuilt the registry bumps the counter and releases the mutex. -/
theorem Fresh.release (fresh : state.Fresh catalog) {thread : ι} {phase : TemplatePhase}
    (holds : (state.phases thread).Holds) (lockless : ¬phase.Holds)
    (recalls : phase.Recalls catalog state.builds (state.generation + 1))
    (same : phase.generation = (state.phases thread).generation) :
    (state.release.enter thread phase).Fresh catalog := by
  have entered : (state.release.enter thread phase).phases thread = phase := Function.update_self ..
  have shared := fresh.shared
  -- The thread holds the lock and gives it back with the next generation.
  have held : state.locked = some thread := (fresh.thread thread).holder.mp holds
  have counted : state.builds.length = state.generation + 1 := by simpa [held] using shared.counted
  refine fresh.of_step [] [] (fun other differs => Function.update_of_ne differs ..) ?_
    (List.append_nil _).symm
    (Nat.le_succ _) (List.append_nil _).symm (Nat.zero_le _) (by simp)
    ⟨counted, shared.slot, shared.bare, shared.called, shared.cache⟩ ⟨?_, ?_, ?_⟩
    (fresh.history.frame (List.append_nil _).symm (Nat.le_succ _) rfl)
  · -- No other thread holds the lock, before or after.
    intro other differs
    simp [TemplateState.release, TemplateState.enter, held, Ne.symm differs]
  · rw [entered]
    exact ⟨fun again => absurd again lockless, fun again => by cases again⟩
  · rw [entered]
    exact recalls
  · intro before probing
    rw [entered, same]
    exact (fresh.thread thread).started before probing

/-- A probe starts by reading the counter, which covers all calls that have returned. -/
theorem Fresh.startProbe (fresh : state.Fresh catalog) {thread : ι}
    (idle : state.phases thread = .idle) :
    ((state.enter thread (.checking state.generation)).records (.probeStarted thread)).Fresh
      catalog := by
  have entered : ((state.enter thread (.checking state.generation)).records
    (.probeStarted thread)).phases thread =
      .checking state.generation := Function.update_self ..
  have shared := fresh.shared
  have own := fresh.thread thread
  have untold : (state.enter thread (.checking state.generation)).HistoryFresh catalog :=
    ⟨fresh.history.returned, fresh.history.fresh, fresh.history.compiled⟩
  refine fresh.of_step [] [.probeStarted thread] (fun other differs =>
    Function.update_of_ne differs ..)
    (fun _ _ => Iff.rfl) (List.append_nil _).symm le_rfl rfl le_rfl (by simp)
    ⟨shared.counted, shared.slot, shared.bare, shared.called, shared.cache⟩ ⟨?_, ?_, ?_⟩
    (untold.records (by simp) (by simp))
  · have outside := own.holder
    rw [idle] at outside
    rw [entered]
    exact outside
  · rw [entered]
    exact Nat.le_refl _
  · intro before probing
    rw [entered]
    refine ⟨state.generation, rfl, fun other extras build member => ?_⟩
    rcases probing.of_concat with ⟨-, same⟩ | ⟨running, -⟩
    · exact (fresh.history.returned other extras build (same ▸ member)).2
    · -- An idle thread has no probe under way.
      obtain ⟨generation, read, -⟩ := own.started before running
      rw [idle] at read
      cases read

/-- A thread that has rebuilt the registry is done with it. -/
theorem Fresh.bump (fresh : state.Fresh catalog) {thread : ι}
    (done : state.step catalog (.bump thread) = some next) :
    next.Fresh catalog := by
  simp only [TemplateState.step] at done
  have recalls := (fresh.thread thread).recalls
  split at done
  · rename_i extras build phase
    cases done
    rw [phase] at recalls
    have released : (state.release.enter thread .idle).Fresh catalog :=
      fresh.release (by rw [phase]; trivial) (fun holds => holds.elim) trivial (by rw [phase]; rfl)
    -- The build of the call is one of those the counter has reached.
    have counted : state.builds.length = state.generation + 1 := released.shared.counted
    have inside : build < state.builds.length := (List.getElem?_eq_some_iff.mp recalls).1
    exact released.setReturned recalls (by
      change build + 1 ≤ state.generation + 1
      omega)
  · rename_i generation source phase
    cases done
    rw [phase] at recalls
    exact fresh.release (by rw [phase]; trivial) (fun holds => holds.elim) recalls
      (by rw [phase]; rfl)
  · cases done

/-- A probe ends with the cached snapshot, or goes on without one. -/
theorem Fresh.checkCache (fresh : state.Fresh catalog) {thread : ι}
    (done : state.step catalog (.checkCache thread) = some next) : next.Fresh catalog := by
  -- A cached snapshot is taken as it is; without one the thread goes on to compile.
  simp only [TemplateState.step] at done
  split at done
  · rename_i generation phase
    obtain ⟨outside, recalls⟩ := fresh.within phase fun holds => holds.elim
    split at done
    · rename_i snapshot found
      cases done
      obtain ⟨made, label⟩ := fresh.shared.cachedFor found
      exact fresh.probed outside made (by rw [phase, label]; rfl)
    · cases done
      exact fresh.enter outside (fun holds => holds.elim) recalls (by rw [phase]; rfl)
  · cases done

/-- A probe copies the templates of the slot, or finds it empty. -/
theorem Fresh.readRegistry (fresh : state.Fresh catalog) {thread : ι}
    (done : state.step catalog (.readRegistry thread) = some next) : next.Fresh catalog := by
  -- The registry is read under its lock, when a build is there.
  simp only [TemplateState.step] at done
  split at done
  · rename_i generation phase
    obtain ⟨outside, recalls⟩ := fresh.within phase fun holds => holds.elim
    obtain ⟨free, opened⟩ := Option.ite_none_right_eq_some.mp done
    split at opened
    · rename_i source held
      cases opened
      exact fresh.enter outside (fun holds => holds.elim) (fresh.shared.merged held recalls)
        (by rw [phase]; rfl)
    · cases opened
      exact fresh.enter outside (fun holds => holds.elim) recalls (by rw [phase]; rfl)
  · cases done

/-- A probe that found the slot empty fills it, unless another thread did so first. -/
theorem Fresh.buildRegistry (fresh : state.Fresh catalog) {thread : ι}
    (done : state.step catalog (.buildRegistry thread) = some next) : next.Fresh catalog := by
  simp only [TemplateState.step] at done
  split at done
  · rename_i generation phase
    obtain ⟨outside, recalls⟩ := fresh.within phase fun holds => holds.elim
    obtain ⟨free, opened⟩ := Option.ite_none_right_eq_some.mp done
    split at opened
    · rename_i source held
      cases opened
      exact fresh.enter outside (fun holds => holds.elim) (fresh.shared.merged held recalls)
        (by rw [phase]; rfl)
    · -- Without a registry there was no build, and so no extras.
      rename_i missing
      cases opened
      have unbuilt : state.builds = [] := by
        simpa using (fresh.shared.slot.symm.trans missing)
      have counted : state.builds.length = state.generation := by
        simpa [free] using fresh.shared.counted
      refine fresh.rebuild free (fresh.shared.bare unbuilt).symm (fun _ => unbuilt) trivial ?_
        (by rw [phase]; rfl)
      refine ⟨state.builds.length, none, List.getElem?_concat_length .., ?_, ?_⟩
      · rw [fresh.shared.bare unbuilt]
        rfl
      · have bound : generation ≤ state.generation := recalls
        omega
  · cases done

/-- A probe publishes what it compiled, unless the cache has its generation already. -/
theorem Fresh.storeCache (fresh : state.Fresh catalog) {thread : ι}
    (done : state.step catalog (.storeCache thread) = some next) : next.Fresh catalog := by
  simp only [TemplateState.step] at done
  split at done
  · rename_i generation source phase
    obtain ⟨outside, recalls⟩ := fresh.within phase fun holds => holds.elim
    split at done
    · -- Another probe was faster.
      rename_i snapshot found
      cases done
      obtain ⟨made, label⟩ := fresh.shared.cachedFor found
      exact fresh.probed outside made (by rw [phase, label]; rfl)
    · cases done
      have made : ProbeSnapshot.From catalog state.builds ⟨source, catalog.compileAll source,
          generation⟩ :=
        ⟨recalls, rfl⟩
      exact (fresh.cache made).probed outside made (by rw [phase]; rfl)
  · cases done

/-- Every step of every thread. -/
theorem Fresh.step (fresh : state.Fresh catalog) {action : TemplateStep ι}
    (done : state.step catalog action = some next) : next.Fresh catalog := by
  cases action with
  -- The setter takes the lock and builds; every other step is the next phase of a probe.
  | setExtras thread extras =>
    obtain ⟨⟨idle, free⟩, same⟩ := Option.ite_none_right_eq_some.mp done
    cases same
    exact fresh.rebuild free rfl (by simp) trivial (List.getElem?_concat_length ..)
      (by rw [idle]; rfl)
  | bump thread => exact fresh.bump done
  | startProbe thread =>
    obtain ⟨idle, same⟩ := Option.ite_none_right_eq_some.mp done
    cases same
    exact fresh.startProbe idle
  | checkCache thread => exact fresh.checkCache done
  | readRegistry thread => exact fresh.readRegistry done
  | buildRegistry thread => exact fresh.buildRegistry done
  | storeCache thread => exact fresh.storeCache done

/-- In every interleaving of calls and probes of any threads, no probe uses stale templates. -/
theorem run_detectsFresh {actions : List (TemplateStep ι)} {final : TemplateState ι γ}
    (done : actions.foldlM (step catalog) .initial = some final) : DetectsFresh catalog final := by
  -- The invariant over the whole run, then what it says of the final state.
  have fresh : final.Fresh catalog :=
    foldlM_invariant (fun _ _ _ held one => held.step one) initial_fresh done
  refine ⟨fun thread extras build member => (fresh.history.returned thread extras build member).1,
    fresh.history.fresh, fun thread snapshot member => ?_, fun extras =>
      ⟨_, _, rfl, sortByPriority_byPriority _, sortByPriority_byPriority extras⟩⟩
  have made := fresh.history.compiled thread snapshot member
  obtain ⟨position, build, found, same, -⟩ := made.merged
  refine ⟨⟨build, List.mem_of_getElem? found, same⟩, ?_, ?_⟩
  · rw [made.compiled, catalog.compileAll_sources]
  · intro entry listed
    exact catalog.compile_of_mem_compileAll (made.compiled ▸ listed)

end TemplateState

end Invariant

/-- A catalogue with one built-in document, in which every pattern but the empty one compiles. -/
def sampleCatalog : TemplateCatalog Bytes where
  embedded := [bytes "syslog"]
  parseTemplate text := some ⟨text, text, true, 20⟩
  compile pattern := if pattern = [] then none else some pattern

/-- An extra template. -/
def sampleTemplate : RegexTemplate := ⟨bytes "mine", bytes "m", true, 10⟩

/-- A slow probe of the first registry overwrites the cache after new extras were set and probed. -/
def slowProbeSteps : List (TemplateStep Nat) :=
  [.startProbe 0, .checkCache 0, .readRegistry 0, .buildRegistry 0, .bump 0,
    .setExtras 1 [sampleTemplate],
    .bump 1, .startProbe 2, .checkCache 2, .readRegistry 2, .storeCache 2, .storeCache 0,
    .startProbe 2,
    .checkCache 2, .readRegistry 2, .storeCache 2]

/-- The slow probe is a run, and no probe in it is stale. -/
theorem slowProbeSteps_detectFresh :
    ∃ final, slowProbeSteps.foldlM (TemplateState.step sampleCatalog) .initial = some final ∧
      final.history.length = 7 ∧ DetectsFresh sampleCatalog final :=
  ⟨_, rfl, rfl, @TemplateState.run_detectsFresh Nat Bytes sampleCatalog _ slowProbeSteps _ rfl⟩

end Loglib
