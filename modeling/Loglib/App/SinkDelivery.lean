import Loglib.App.StreamingLogSink

/-! What the sink hands over: every batch that the worker has sent, in its order, apart
from counted rows. -/

namespace Loglib

namespace SinkBatch

/-- A batch without keys, errors, offsets and spans. -/
def CarriesOnlyRows (batch : SinkBatch) : Prop :=
  batch.localLineOffsets = [] ∧ batch.newKeys = [] ∧ batch.multiLineSpans = [] ∧ batch.errors = []

/-- Each batch that goes as a whole when rows are dropped carries nothing but rows. -/
def DropsOnlyRows (toDrop : Nat) (batches : List SinkBatch) : Prop :=
  ∀ front batch back, batches = front ++ batch :: back → lineCount front < toDrop →
    lineCount front + batch.lines.length ≤ toDrop ∨ batch.localLineOffsets ≠ [] →
      batch.CarriesOnlyRows

/-- The first rows of the batches are dropped, and everything else comes out in order. -/
structure Delivers (batches : List SinkBatch) (dropped : Nat) (out : List SinkBatch) : Prop where
  dropped_le : dropped ≤ lineCount batches
  lines : out.flatMap (·.lines) = (batches.flatMap (·.lines)).drop dropped
  localLineOffsets : out.flatMap (·.localLineOffsets) = batches.flatMap (·.localLineOffsets)
  newKeys : out.flatMap (·.newKeys) = batches.flatMap (·.newKeys)
  multiLineSpans : out.flatMap (·.multiLineSpans) = batches.flatMap (·.multiLineSpans)
  errors : out.flatMap (·.errors) = batches.flatMap (·.errors)

/-- The count of rows is the length of the rows. -/
theorem lineCount_eq (batches : List SinkBatch) :
    lineCount batches = (batches.flatMap (·.lines)).length := by
  -- Both sides add up the same lengths.
  simp [lineCount, List.length_flatMap]

/-- The lines of a first batch and the others. -/
@[simp] theorem lineCount_cons (batch : SinkBatch) (batches : List SinkBatch) :
    lineCount (batch :: batches) = batch.lines.length + lineCount batches := by
  simp [lineCount]

/-- The lines of batches behind batches. -/
@[simp] theorem lineCount_append (front back : List SinkBatch) :
    lineCount (front ++ back) = lineCount front + lineCount back := by
  simp [lineCount]

/-- Batches that nothing happens to. -/
theorem Delivers.refl (batches : List SinkBatch) : Delivers batches 0 batches :=
  ⟨Nat.zero_le _, rfl, rfl, rfl, rfl, rfl⟩

section Deliveries

variable {batches out : List SinkBatch} {dropped : Nat}

/-- What comes out has the rows that are left. -/
theorem Delivers.lineCount_out (delivers : Delivers batches dropped out) :
    lineCount out = lineCount batches - dropped := by
  -- Dropping a prefix of the rows shortens them by its length.
  rw [lineCount_eq, lineCount_eq, delivers.lines, List.length_drop]

/-- One more batch at the end. -/
theorem Delivers.concat (delivers : Delivers batches dropped out) (batch : SinkBatch) :
    Delivers (batches ++ [batch]) dropped (out ++ [batch]) := by
  -- No more rows are dropped than there are, so the drop stays in front of the new batch.
  have inside : dropped ≤ (batches.flatMap (·.lines)).length := by
    rw [← lineCount_eq]
    exact delivers.dropped_le
  constructor
  · have bound := delivers.dropped_le
    simp only [lineCount_append]
    omega
  · simp only [List.flatMap_append, delivers.lines, List.drop_append_of_le_length inside]
  · simp only [List.flatMap_append, delivers.localLineOffsets]
  · simp only [List.flatMap_append, delivers.newKeys]
  · simp only [List.flatMap_append, delivers.multiLineSpans]
  · simp only [List.flatMap_append, delivers.errors]

/-- Two droppings one after the other. -/
theorem Delivers.trans (first : Delivers batches dropped out) {more : Nat} {last : List SinkBatch}
    (second : Delivers out more last) : Delivers batches (dropped + more) last := by
  constructor
  · -- What the second drops lies behind what the first has dropped.
    have bound := second.dropped_le
    have before := first.dropped_le
    rw [first.lineCount_out] at bound
    omega
  · rw [second.lines, first.lines, List.drop_drop]
  · rw [second.localLineOffsets, first.localLineOffsets]
  · rw [second.newKeys, first.newKeys]
  · rw [second.multiLineSpans, first.multiLineSpans]
  · rw [second.errors, first.errors]

/-- Coalescing loses nothing. -/
theorem Delivers.coalesce (delivers : Delivers batches dropped out) :
    Delivers batches dropped [coalesce out] := by
  have same : ∀ {α : Type} (field : SinkBatch → List α), [SinkBatch.coalesce out].flatMap field =
      field (SinkBatch.coalesce out) := fun field => List.append_nil _
  exact ⟨delivers.dropped_le, (same _).trans delivers.lines,
    (same _).trans delivers.localLineOffsets,
    (same _).trans delivers.newKeys, (same _).trans delivers.multiLineSpans,
    (same _).trans delivers.errors⟩

/-- Batches without anything may stay behind. -/
theorem Delivers.of_blank (delivers : Delivers batches dropped out)
    (blank : ∀ batch ∈ out, batch.lines = [] ∧ batch.CarriesOnlyRows) :
    Delivers batches dropped [] := by
  -- Nothing is left of a field that is empty in every batch.
  have none_ : ∀ {α : Type} {field : SinkBatch → List α}, (∀ batch ∈ out, field batch = []) →
      [] = out.flatMap field :=
    fun blank => (List.flatMap_eq_nil_iff.mpr blank).symm
  constructor
  · exact delivers.dropped_le
  · exact (none_ fun batch member => (blank batch member).1).trans delivers.lines
  · exact (none_ fun batch member => (blank batch member).2.1).trans delivers.localLineOffsets
  · exact (none_ fun batch member => (blank batch member).2.2.1).trans delivers.newKeys
  · exact (none_ fun batch member => (blank batch member).2.2.2.1).trans delivers.multiLineSpans
  · exact (none_ fun batch member => (blank batch member).2.2.2.2).trans delivers.errors

end Deliveries

/-- The loop drops as many rows as it is asked for, and nothing else, if whole batches carry nothing
but rows. -/
theorem trimFront_delivers {toDrop : Nat} {batches : List SinkBatch}
    (only : DropsOnlyRows toDrop batches)
    (enough : toDrop ≤ lineCount batches) :
    Delivers batches toDrop (trimFront toDrop batches).1 ∧
      (trimFront toDrop batches).2 = toDrop := by
  -- The induction follows the loop over the batches.
  induction batches generalizing toDrop with
  | nil =>
    obtain rfl : toDrop = 0 := by simpa [lineCount] using enough
    exact ⟨.refl [], rfl⟩
  | cons batch rest ih =>
    unfold trimFront
    split
    · rename_i nothing
      subst nothing
      exact ⟨.refl _, rfl⟩
    · rename_i some_
      have carries := only [] batch rest rfl (Nat.pos_of_ne_zero some_)
      simp only
      split
      · -- The batch goes as a whole. It carries no offsets, so it has no more rows than there are
        -- to drop.
        rename_i whole
        have bare := carries (by simpa [lineCount] using whole)
        have fits : batch.lines.length ≤ toDrop := whole.resolve_right (not_not_intro bare.1)
        have later : DropsOnlyRows (toDrop - batch.lines.length) rest := by
          intro front other back parts before goes
          apply only (batch :: front) other back (by rw [parts, List.cons_append])
          · simp only [lineCount_cons]
            omega
          · simp only [lineCount_cons]
            exact goes.imp_left fun fewer => by omega
        obtain ⟨delivers, count⟩ := ih later (by simp only [lineCount_cons] at enough; omega)
        refine ⟨⟨enough, ?_, ?_, ?_, ?_, ?_⟩, ?_⟩
        · have parts : toDrop = batch.lines.length + (toDrop - batch.lines.length) := by omega
          rw [delivers.lines, List.flatMap_cons]
          conv_rhs => rw [parts]
          rw [List.drop_append]
          simp
        · rw [delivers.localLineOffsets, List.flatMap_cons, bare.1, List.nil_append]
        · rw [delivers.newKeys, List.flatMap_cons, bare.2.1, List.nil_append]
        · rw [delivers.multiLineSpans, List.flatMap_cons, bare.2.2.1, List.nil_append]
        · rw [delivers.errors, List.flatMap_cons, bare.2.2.2, List.nil_append]
        · simp only [count]
          omega
      · -- The first rows of the batch go, and the loop ends.
        rename_i part
        simp only [not_or, not_le] at part
        refine ⟨⟨enough, ?_, rfl, rfl, rfl, rfl⟩, rfl⟩
        simp only [List.flatMap_cons]
        rw [List.drop_append_of_le_length part.1.le]

end SinkBatch

/-- The batch that `OnBatch` still has in its hands. -/
def SinkWorker.inHand : SinkWorker → List SinkBatch
  | .began batch | .sawPaused batch | .buffering batch _ | .enqueueing batch => [batch]
  | .ready | .enqueued | .posting | .ended => []

/-- The generation that a posted call belongs to. -/
def PostedCall.generation : PostedCall → Nat
  | .drain generation | .finished generation _ => generation

/-- A posted drain. -/
def PostedCall.isDrain : PostedCall → Bool
  | .drain _ => true
  | .finished _ _ => false

namespace SinkSystem

/-- Stretches of received batches have been handed over in order, each as one batch at most. The
rest waits in the queue, in the buffer and in the hands of the worker. The rows that are missing are
the first ones of their stretch, and are counted. -/
structure Accounts (system : SinkSystem) (stretches : List (List SinkBatch × Nat))
    (outs : List (List SinkBatch))
    (held : List SinkBatch) (dropped : Nat) : Prop where
  received : system.received =
    stretches.flatMap (·.1) ++ system.sink.pending ++ held ++ system.worker.inHand
  handed : system.handed = outs.flatten
  delivers : List.Forall₂ (fun stretch out => SinkBatch.Delivers stretch.1 stretch.2 out ∧
    out.length ≤ 1) stretches outs
  buffered : SinkBatch.Delivers held dropped system.sink.pausedBatches
  counted : (stretches.map (·.2)).sum + dropped = system.countedBefore + system.sink.pausedDropCount

/-- Every received batch is accounted for. -/
def DeliversReceived (system : SinkSystem) : Prop :=
  ∃ stretches outs held dropped, system.Accounts stretches outs held dropped

/-- The worker is outside `OnBatch`, and no posted call waits or runs. -/
def Quiet (system : SinkSystem) : Prop :=
  (system.worker = .ready ∨ system.worker = .ended) ∧ system.events = [] ∧ system.draining = none

/-- The step loses nothing but rows that it counts, and lets no batch overtake another: rows above
the cap go without keys, errors, offsets and spans; nothing is resumed before the queue is drained,
trimmed from outside, or left in the buffer when the next source is appended. -/
def KeepsBatches (system : SinkSystem) : SinkStep → Prop
  | .worker => ∀ batch cap, system.worker = .buffering batch cap → system.sink.paused = true →
    SinkBatch.DropsOnlyRows (StreamingLogSink.excess cap (system.sink.pausedBatches ++ [batch]))
      (system.sink.pausedBatches ++ [batch])
  | .resume => system.sink.paused = true → system.sink.pausedBatches ≠ [] → system.sink.pending = []
  | .trimPausedBufferTo maxBufferedLines =>
    SinkBatch.lineCount system.sink.pausedBatches ≤ maxBufferedLines
  | .appendStreaming =>
    ∀ batch ∈ system.sink.pausedBatches, batch.lines = [] ∧ batch.CarriesOnlyRows
  | _ => True

/-- The posted calls and the worker agree on what is still to be drained. -/
structure Scheduled (system : SinkSystem) : Prop where
  draining : ∀ generation, system.draining = some generation → generation = system.sink.generation
  posted : ∀ call ∈ system.events, call.generation = system.sink.generation
  woken : system.sink.pending ≠ [] →
    system.sink.drainScheduled = true ∨ system.worker = .enqueued ∨ system.draining ≠ none
  scheduled : system.sink.drainScheduled = true →
    system.worker = .posting ∨ ∃ call ∈ system.events, call.isDrain = true
  live : system.worker ≠ .ended → system.sink.active = true ∧ ∀ call ∈ system.events,
    call.isDrain = true
  last : ∀ call ∈ system.events.dropLast, call.isDrain = true
  idle : system.sink.active = false →
    system.worker = .ended ∧ system.events = [] ∧ system.draining = none ∧ system.sink.pending = []

/-- Where the buffer is in use, the queue is not: a batch that is on its way to the queue finds the
buffer empty. -/
structure Ordered (system : SinkSystem) : Prop where
  running : system.sink.paused = false → system.sink.pausedBatches = []
  enqueueing : ∀ batch, system.worker = .enqueueing batch → system.sink.pausedBatches = []

/-- What holds between the steps of a run. -/
structure Sound (system : SinkSystem) : Prop where
  scheduled : system.Scheduled
  ordered : system.Ordered
  accounts : ∃ stretches outs held dropped, system.Accounts stretches outs held dropped ∧
    (system.sink.pausedBatches = [] → held = [])

section Scheduling

variable {system next : SinkSystem}

/-- A worker inside `OnBatch`, apart from its last accesses, leaves the waking to the
posted calls. -/
def SleepsOn (system : SinkSystem) : Prop :=
  system.worker ≠ .ended ∧ system.worker ≠ .enqueued ∧ system.worker ≠ .posting

/-- Such a worker may go anywhere, and the buffer and the received batches do not matter. -/
theorem Scheduled.setWorker (scheduled : system.Scheduled) (sleeps : system.SleepsOn)
    (worker : SinkWorker)
    (received : List SinkBatch) (pausedBatches : List SinkBatch) (pausedDropCount : Nat) :
    ({ system with
        sink := { system.sink with pausedBatches, pausedDropCount }
        worker, received } : SinkSystem).Scheduled := by
  obtain ⟨inside, notEnqueued, notPosting⟩ := sleeps
  have live := scheduled.live inside
  -- Only what speaks of the worker has to be looked at.
  constructor
  · exact scheduled.draining
  · exact scheduled.posted
  · intro waits
    rcases scheduled.woken waits with posted | enqueued | draining
    · exact .inl posted
    · exact absurd enqueued notEnqueued
    · exact .inr (.inr draining)
  · intro posted
    exact .inr ((scheduled.scheduled posted).resolve_left notPosting)
  · exact fun _ => live
  · exact scheduled.last
  · intro inactive
    exact absurd (live.1.symm.trans inactive) (by decide)

/-- The accesses of the worker keep the schedule. -/
theorem stepWorker_scheduled (scheduled : system.Scheduled) (done : system.stepWorker = some next) :
    next.Scheduled := by
  -- One case for each place between two accesses.
  unfold stepWorker at done
  simp only at done
  split at done
  · exact nomatch done
  · rename_i batch at_
    obtain rfl := Option.some.inj done
    exact scheduled.setWorker (by simp [SleepsOn, at_]) _ _ _ _
  · rename_i batch at_
    obtain rfl := Option.some.inj done
    exact scheduled.setWorker (by simp [SleepsOn, at_]) _ _ _ _
  · rename_i batch cap at_
    have sleeps : system.SleepsOn := by simp [SleepsOn, at_]
    split at done
    · obtain rfl := Option.some.inj done
      exact scheduled.setWorker sleeps _ _ _ _
    · obtain rfl := Option.some.inj done
      exact scheduled.setWorker sleeps _ _ _ _
  · rename_i batch at_
    have live := scheduled.live (by simp [at_])
    split at done
    · -- The batch that waits now is the worker's own.
      obtain rfl := Option.some.inj done
      constructor
      · exact scheduled.draining
      · exact scheduled.posted
      · exact fun _ => .inr (.inl rfl)
      · intro posted
        exact .inr ((scheduled.scheduled posted).resolve_left (by simp [at_]))
      · exact fun _ => live
      · exact scheduled.last
      · intro inactive
        exact absurd (live.1.symm.trans inactive) (by decide)
    · exact nomatch done
  · rename_i at_
    have live := scheduled.live (by simp [at_])
    obtain rfl := Option.some.inj done
    constructor
    · exact scheduled.draining
    · exact scheduled.posted
    · exact fun _ => .inl rfl
    · intro _
      -- The flag was set by a call that is still posted, or the worker posts one next.
      by_cases before : system.sink.drainScheduled = true
      · exact .inr ((scheduled.scheduled before).resolve_left (by simp [at_]))
      · exact .inl (if_neg before)
    · exact fun _ => live
    · exact scheduled.last
    · intro inactive
      exact absurd (live.1.symm.trans inactive) (by decide)
  · rename_i at_
    have live := scheduled.live (by simp [at_])
    have drains : ∀ call ∈ system.events ++ [.drain system.sink.generation],
        call.isDrain = true := by
      intro call member
      rcases List.mem_append.mp member with before | new
      · exact live.2 call before
      · rw [List.mem_singleton.mp new]
        rfl
    obtain rfl := Option.some.inj done
    constructor
    · exact scheduled.draining
    · intro call member
      rcases List.mem_append.mp member with before | new
      · exact scheduled.posted call before
      · rw [List.mem_singleton.mp new]
        rfl
    · intro waits
      rcases scheduled.woken waits with posted | enqueued | draining
      · exact .inl posted
      · exact absurd (at_.symm.trans enqueued) (by simp)
      · exact .inr (.inr draining)
    · exact fun _ => .inr ⟨_, List.mem_append_right _ (List.mem_singleton_self _), rfl⟩
    · exact fun _ => ⟨live.1, drains⟩
    · exact fun call member => drains call (List.dropLast_subset _ member)
    · intro inactive
      exact absurd (live.1.symm.trans inactive) (by decide)
  · exact nomatch done

/-- A posted call that runs keeps the schedule. The end of the stream comes last. -/
theorem runEvent_scheduled (scheduled : system.Scheduled) (between : system.draining = none)
    (done : system.runEvent = some next) : next.Scheduled := by
  unfold runEvent at done
  split at done
  · exact nomatch done
  · rename_i generation rest queued
    obtain rfl := Option.some.inj done
    have current := scheduled.posted (.drain generation) (by rw [queued]; exact List.mem_cons_self)
    constructor
    · intro other begun
      rw [← Option.some.inj begun]
      exact current
    · exact fun call member =>
        scheduled.posted call (by rw [queued]; exact List.mem_cons_of_mem _ member)
    · exact fun _ => .inr (.inr (by simp))
    · exact fun posted => nomatch posted
    · intro inside
      obtain ⟨active, drains⟩ := scheduled.live inside
      exact ⟨active, fun call member =>
        drains call (by rw [queued]; exact List.mem_cons_of_mem _ member)⟩
    · intro call member
      refine scheduled.last call ?_
      rw [queued]
      cases rest with
      | nil => exact absurd member List.not_mem_nil
      | cons other rest => exact List.mem_cons_of_mem _ member
    · intro inactive
      have empty := (scheduled.idle inactive).2.1
      rw [queued] at empty
      exact nomatch empty
  · rename_i generation cancelled rest queued
    obtain rfl := Option.some.inj done
    have current : generation = system.sink.generation :=
      scheduled.posted (.finished generation cancelled) (by rw [queued]; exact List.mem_cons_self)
    have nothing : rest = [] := by
      -- Otherwise the end would not be the last call.
      cases rest with
      | nil => rfl
      | cons other rest =>
        have drain := scheduled.last (.finished generation cancelled)
          (by rw [queued]; exact List.mem_cons_self)
        exact nomatch drain
    subst nothing
    have ended : system.worker = .ended := by
      by_contra inside
      have drain := (scheduled.live inside).2 (.finished generation cancelled)
        (by rw [queued]; exact List.mem_cons_self)
      exact nomatch drain
    have unscheduled : system.sink.drainScheduled ≠ true := by
      intro posted
      rcases scheduled.scheduled posted with posting | ⟨call, member, drain⟩
      · exact nomatch ended.symm.trans posting
      · rw [queued] at member
        rw [List.mem_singleton.mp member] at drain
        exact nomatch drain
    have drained : system.sink.pending = [] := by
      by_contra waits
      rcases scheduled.woken waits with posted | enqueued | draining
      · exact unscheduled posted
      · exact nomatch ended.symm.trans enqueued
      · exact draining between
    rw [if_pos current]
    constructor
    · exact scheduled.draining
    · exact fun call member => absurd member List.not_mem_nil
    · exact fun waits => absurd drained waits
    · exact fun posted => absurd posted unscheduled
    · exact fun inside => absurd ended inside
    · exact fun call member => absurd member List.not_mem_nil
    · exact fun _ => ⟨ended, rfl, between, drained⟩

/-- The rest of a drain keeps the schedule. -/
theorem drainAll_scheduled (scheduled : system.Scheduled) (done : system.drainAll = some next) :
    next.Scheduled := by
  obtain ⟨generation, begun, rfl⟩ := Option.map_eq_some_iff.mp done
  have drained : ({ system with
      sink := { system.sink with pending := [] }
      draining := none } : SinkSystem).Scheduled := by
    constructor
    · -- The queue is empty now, so nothing in it waits for a drain.
      exact fun _ none_ => nomatch none_
    · exact scheduled.posted
    · exact fun waits => absurd rfl waits
    · exact scheduled.scheduled
    · exact scheduled.live
    · exact scheduled.last
    · intro inactive
      obtain ⟨ended, empty, -, -⟩ := scheduled.idle inactive
      exact ⟨ended, empty, rfl, rfl⟩
  -- The hand over calls the model, and touches neither queue nor posted calls.
  simp only
  split
  · unfold appendBatch
    split
    · exact drained
    · exact ⟨drained.draining, drained.posted, drained.woken, drained.scheduled, drained.live,
        drained.last, drained.idle⟩
  · exact drained

end Scheduling

section Accounting

variable {system next : SinkSystem} {stretches : List (List SinkBatch × Nat)}
    {outs : List (List SinkBatch)}
  {held : List SinkBatch} {dropped : Nat}

/-- What the queue holds is handed over before what the buffer holds. -/
theorem Accounts.drain (accounts : system.Accounts stretches outs held dropped) :
    ∃ stretches outs, (({ system with
      sink := { system.sink with pending := [] }
      draining := none } : SinkSystem).appendBatch system.sink.pending).Accounts stretches outs held
        dropped := by
  -- The queue is empty and nothing is inserted, or it is inserted as one batch.
  unfold appendBatch
  split
  · rename_i nothing
    refine ⟨stretches, outs, ?_, accounts.handed, accounts.delivers, accounts.buffered,
      accounts.counted⟩
    rw [accounts.received, nothing]
  · refine ⟨stretches ++ [(system.sink.pending, 0)],
      outs ++ [[SinkBatch.coalesce system.sink.pending]], ?_, ?_, ?_,
      accounts.buffered, ?_⟩
    · simp only [accounts.received, List.flatMap_append, List.flatMap_singleton, List.append_nil]
    · simp only [accounts.handed, List.flatten_append, List.flatten_singleton]
    · refine List.rel_append accounts.delivers (.cons ⟨?_, le_rfl⟩ .nil)
      exact (SinkBatch.Delivers.refl system.sink.pending).coalesce
    · simpa using accounts.counted

/-- What the buffer holds is handed over, or may stay behind, once the queue is empty. -/
theorem Accounts.release (accounts : system.Accounts stretches outs held dropped)
    (next : SinkSystem)
    (drained : system.sink.pending = []) {out : List SinkBatch}
    (delivers : SinkBatch.Delivers held dropped out) (once : out.length ≤ 1)
    (received : next.received = system.received) (waits : next.sink.pending = [])
    (emptied : next.sink.pausedBatches = []) (inHand : next.worker.inHand = system.worker.inHand)
    (handed : next.handed = system.handed ++ out)
    (counted : next.countedBefore + next.sink.pausedDropCount = system.countedBefore +
    system.sink.pausedDropCount) :
    ∃ stretches outs, next.Accounts stretches outs [] 0 := by
  -- The buffer goes out as one more stretch.
  refine ⟨stretches ++ [(held, dropped)], outs ++ [out], ?_, ?_, ?_, ?_, ?_⟩
  · rw [received, accounts.received, drained, waits, inHand]
    simp
  · rw [handed, accounts.handed]
    simp
  · exact List.rel_append accounts.delivers (.cons ⟨delivers, once⟩ .nil)
  · rw [emptied]
    exact .refl []
  · rw [counted]
    simpa using accounts.counted

/-- Rows above the cap are dropped and counted, and the buffer is not empty then. -/
theorem Accounts.buffer (accounts : system.Accounts stretches outs held dropped) {batch : SinkBatch}
    {cap : Nat}
    (at_ : system.worker = .buffering batch cap)
    (only : SinkBatch.DropsOnlyRows
    (StreamingLogSink.excess cap (system.sink.pausedBatches ++ [batch]))
      (system.sink.pausedBatches ++ [batch])) :
    ∃ dropped, ({ system with sink := system.sink.bufferPaused batch cap, worker := .ready } :
      SinkSystem).Accounts
      stretches outs (held ++ [batch]) dropped := by
  -- The trim takes no more than what exceeds the cap.
  have enough : StreamingLogSink.excess cap (system.sink.pausedBatches ++ [batch]) ≤
      SinkBatch.lineCount (system.sink.pausedBatches ++ [batch]) := by
    unfold StreamingLogSink.excess
    split
    · exact Nat.zero_le _
    · exact Nat.sub_le _ _
  obtain ⟨trimmed, count⟩ := SinkBatch.trimFront_delivers only enough
  refine ⟨_, ?_, accounts.handed, accounts.delivers, (accounts.buffered.concat batch).trans trimmed,
    ?_⟩
  · rw [accounts.received, at_]
    simp [SinkWorker.inHand, StreamingLogSink.bufferPaused]
  · have before := accounts.counted
    simp only [StreamingLogSink.bufferPaused, count]
    omega

/-- Trimming leaves something in the buffer, if there was something to begin with. -/
theorem bufferPaused_ne_nil {sink : StreamingLogSink} {batch : SinkBatch} {cap : Nat}
    (only : SinkBatch.DropsOnlyRows (StreamingLogSink.excess cap (sink.pausedBatches ++ [batch]))
      (sink.pausedBatches ++ [batch])) : (sink.bufferPaused batch cap).pausedBatches ≠ [] := by
  intro empty
  have kept : (SinkBatch.trimFront (StreamingLogSink.excess cap (sink.pausedBatches ++ [batch]))
      (sink.pausedBatches ++ [batch])).1 = [] := empty
  by_cases within : StreamingLogSink.excess cap (sink.pausedBatches ++ [batch]) = 0
  · -- Nothing is dropped, so the new batch is still there.
    rw [within] at kept
    cases before : sink.pausedBatches with
    | nil => simp [before, SinkBatch.trimFront] at kept
    | cons first rest => simp [before, SinkBatch.trimFront] at kept
  · -- As many rows stay as the cap allows.
    unfold StreamingLogSink.excess at *
    split at within
    · exact within rfl
    · rename_i limited
      rw [if_neg limited] at kept only
      obtain ⟨trimmed, -⟩ := SinkBatch.trimFront_delivers only (Nat.sub_le _ _)
      have left := trimmed.lineCount_out
      rw [kept] at left
      simp only [SinkBatch.lineCount, List.map_nil, List.sum_nil] at left
      unfold SinkBatch.lineCount at within
      omega

end Accounting

section Steps

variable {system next : SinkSystem}

/-- The end of the stream is posted behind all drains. -/
theorem onFinished_scheduled (scheduled : system.Scheduled) (at_ : system.worker = .ready)
    (cancelled : Bool) :
    ({ system with
        events := system.events ++ [.finished system.sink.generation cancelled]
        worker := .ended } : SinkSystem).Scheduled := by
  have live := scheduled.live (by simp [at_])
  -- The last call of the stream is posted behind every drain.
  constructor
  · exact scheduled.draining
  · intro call member
    rcases List.mem_append.mp member with before | new
    · exact scheduled.posted call before
    · rw [List.mem_singleton.mp new]
      rfl
  · -- The worker is between batches, so it is not the one that wakes the drain.
    intro waits
    rcases scheduled.woken waits with posted | enqueued | draining
    · exact .inl posted
    · exact nomatch at_.symm.trans enqueued
    · exact .inr (.inr draining)
  · intro posted
    obtain ⟨call, member, drain⟩ := (scheduled.scheduled posted).resolve_left (by simp [at_])
    exact .inr ⟨call, List.mem_append_left _ member, drain⟩
  · -- The worker has ended, so nothing is asked of a running one.
    exact fun inside => absurd rfl inside
  · intro call member
    rw [List.dropLast_concat] at member
    exact live.2 call member
  · intro inactive
    exact absurd (live.1.symm.trans inactive) (by decide)

/-- The accesses of the worker keep what holds. -/
theorem stepWorker_sound (sound : system.Sound) (keeps : system.KeepsBatches .worker)
    (done : system.stepWorker = some next) : next.Sound := by
  obtain ⟨stretches, outs, held, dropped, accounts, empty⟩ := sound.accounts
  refine ⟨stepWorker_scheduled sound.scheduled done, ?_, ?_⟩
  · -- A batch goes to the queue only after the flag was down, and the buffer was empty then.
    have running := sound.ordered.running
    have enqueueing := sound.ordered.enqueueing
    unfold stepWorker at done
    simp only at done
    split at done
    · exact nomatch done
    · obtain rfl := Option.some.inj done
      refine ⟨running, fun other there => ?_⟩
      simp only at there
      split at there
      · exact nomatch there
      · rename_i goes
        exact running (Bool.eq_false_of_not_eq_true goes)
    · obtain rfl := Option.some.inj done
      exact ⟨running, fun other there => nomatch there⟩
    · split at done
      · rename_i paused
        obtain rfl := Option.some.inj done
        exact ⟨fun goes => absurd (paused.symm.trans goes) (by decide), fun other there =>
          nomatch there⟩
      · rename_i goes
        obtain rfl := Option.some.inj done
        exact ⟨running, fun _ _ => running (Bool.eq_false_of_not_eq_true goes)⟩
    · split at done
      · obtain rfl := Option.some.inj done
        exact ⟨running, fun other there => nomatch there⟩
      · exact nomatch done
    · obtain rfl := Option.some.inj done
      refine ⟨running, fun other there => ?_⟩
      simp only at there
      split at there
      · exact nomatch there
      · exact nomatch there
    · obtain rfl := Option.some.inj done
      exact ⟨running, fun other there => nomatch there⟩
    · exact nomatch done
  · unfold stepWorker at done
    simp only at done
    split at done
    · exact nomatch done
    · rename_i batch at_
      obtain rfl := Option.some.inj done
      refine ⟨stretches, outs, held, dropped,
        ⟨?_, accounts.handed, accounts.delivers, accounts.buffered,
        accounts.counted⟩, empty⟩
      rw [accounts.received, at_]
      cases system.sink.paused <;> rfl
    · rename_i batch at_
      obtain rfl := Option.some.inj done
      refine ⟨stretches, outs, held, dropped,
        ⟨?_, accounts.handed, accounts.delivers, accounts.buffered,
        accounts.counted⟩, empty⟩
      rw [accounts.received, at_]
      rfl
    · rename_i batch cap at_
      split at done
      · rename_i paused
        obtain rfl := Option.some.inj done
        have only := keeps batch cap at_ paused
        obtain ⟨dropped, accounts⟩ := accounts.buffer at_ only
        exact ⟨stretches, outs, _, dropped, accounts, fun nothing =>
          absurd nothing (bufferPaused_ne_nil only)⟩
      · obtain rfl := Option.some.inj done
        refine ⟨stretches, outs, held, dropped,
          ⟨?_, accounts.handed, accounts.delivers, accounts.buffered,
          accounts.counted⟩, empty⟩
        rw [accounts.received, at_]
        rfl
    · rename_i batch at_
      split at done
      · -- The buffer holds nothing that the batch could overtake.
        obtain rfl := Option.some.inj done
        have nothing := empty (sound.ordered.enqueueing batch at_)
        refine ⟨stretches, outs, held, dropped,
          ⟨?_, accounts.handed, accounts.delivers, accounts.buffered,
          accounts.counted⟩, empty⟩
        rw [accounts.received, at_, nothing]
        simp [SinkWorker.inHand]
      · exact nomatch done
    · rename_i at_
      obtain rfl := Option.some.inj done
      refine ⟨stretches, outs, held, dropped,
        ⟨?_, accounts.handed, accounts.delivers, accounts.buffered,
        accounts.counted⟩, empty⟩
      rw [accounts.received, at_]
      cases system.sink.drainScheduled <;> rfl
    · rename_i at_
      obtain rfl := Option.some.inj done
      refine ⟨stretches, outs, held, dropped,
        ⟨?_, accounts.handed, accounts.delivers, accounts.buffered,
        accounts.counted⟩, empty⟩
      rw [accounts.received, at_]
      rfl
    · exact nomatch done

/-- A posted call that runs keeps what holds. -/
theorem runEvent_sound (sound : system.Sound) (between : system.draining = none)
    (done : system.runEvent = some next) :
    next.Sound := by
  obtain ⟨stretches, outs, held, dropped, accounts, empty⟩ := sound.accounts
  have scheduled := runEvent_scheduled sound.scheduled between done
  unfold runEvent at done
  split at done
  · exact nomatch done
  · obtain rfl := Option.some.inj done
    exact ⟨scheduled, ⟨sound.ordered.running, sound.ordered.enqueueing⟩, stretches, outs,
      held, dropped,
      ⟨accounts.received, accounts.handed, accounts.delivers, accounts.buffered, accounts.counted⟩,
      empty⟩
  · -- The end of the stream touches neither the queue nor the buffer.
    obtain rfl := Option.some.inj done
    split at scheduled
    · rename_i current
      rw [if_pos current]
      exact ⟨scheduled, ⟨sound.ordered.running, sound.ordered.enqueueing⟩, stretches, outs,
        held, dropped,
        ⟨accounts.received, accounts.handed, accounts.delivers, accounts.buffered,
        accounts.counted⟩, empty⟩
    · rename_i stale
      rw [if_neg stale]
      exact ⟨scheduled, ⟨sound.ordered.running, sound.ordered.enqueueing⟩, stretches, outs,
        held, dropped,
        ⟨accounts.received, accounts.handed, accounts.delivers, accounts.buffered,
        accounts.counted⟩, empty⟩

/-- Handing over changes neither the sink nor the worker. -/
theorem appendBatch_frame (system : SinkSystem) (drained : List SinkBatch) :
    (system.appendBatch drained).sink = system.sink ∧
      (system.appendBatch drained).worker = system.worker ∧
      (system.appendBatch drained).received = system.received ∧
      (system.appendBatch drained).countedBefore = system.countedBefore := by
  unfold appendBatch
  split
  · exact ⟨rfl, rfl, rfl, rfl⟩
  · exact ⟨rfl, rfl, rfl, rfl⟩

/-- The rest of a drain keeps what holds. -/
theorem drainAll_sound (sound : system.Sound) (done : system.drainAll = some next) :
    next.Sound := by
  have scheduled := drainAll_scheduled sound.scheduled done
  obtain ⟨stretches, outs, held, dropped, accounts, empty⟩ := sound.accounts
  obtain ⟨generation, begun, rfl⟩ := Option.map_eq_some_iff.mp done
  -- No drain is stale, since the sink is armed only after the last one.
  have current := sound.scheduled.draining generation begun
  simp only [if_pos current] at scheduled ⊢
  obtain ⟨sink, worker, -, -⟩ := appendBatch_frame { system with
    sink := { system.sink with pending := [] }
    draining := none } system.sink.pending
  obtain ⟨stretches, outs, accounts⟩ := accounts.drain
  refine ⟨scheduled, ⟨?_, ?_⟩, stretches, outs, held, dropped, accounts, ?_⟩
  · rw [sink]
    exact sound.ordered.running
  · rw [sink, worker]
    exact sound.ordered.enqueueing
  · rw [sink]
    exact empty

/-- Resuming keeps what holds, unless something still waits in the queue. -/
theorem resume_sound (sound : system.Sound) (keeps : system.KeepsBatches .resume) :
    system.resume.Sound := by
  obtain ⟨stretches, outs, held, dropped, accounts, empty⟩ := sound.accounts
  have scheduled := sound.scheduled
  unfold resume
  split
  · exact sound
  · rename_i paused
    have paused : system.sink.paused = true := Bool.eq_true_of_not_eq_false paused
    unfold appendBatch
    -- An empty buffer hands nothing over.
    split
    · rename_i nothing
      refine ⟨⟨scheduled.draining, scheduled.posted, scheduled.woken, scheduled.scheduled,
        scheduled.live,
        scheduled.last, scheduled.idle⟩, ⟨fun _ => rfl, fun _ _ => rfl⟩, stretches, outs,
        held, dropped,
        ⟨accounts.received, accounts.handed, accounts.delivers, ?_, accounts.counted⟩, fun _ =>
          empty nothing⟩
      have buffered := accounts.buffered
      rw [nothing] at buffered
      exact buffered
    · -- The buffer goes to the model as one batch. By the condition nothing older is still in the
      -- queue.
      rename_i some_
      have drained := keeps paused some_
      obtain ⟨stretches, outs, accounts⟩ := accounts.release { system with
          sink := { system.sink with pausedBatches := [], paused := false }
          handed := system.handed ++ [SinkBatch.coalesce system.sink.pausedBatches] }
        drained accounts.buffered.coalesce le_rfl rfl drained rfl rfl rfl rfl
      exact ⟨⟨scheduled.draining, scheduled.posted, scheduled.woken, scheduled.scheduled,
        scheduled.live,
        scheduled.last, scheduled.idle⟩, ⟨fun _ => rfl, fun _ _ => rfl⟩, stretches, outs, [], 0,
        accounts, fun _ => rfl⟩

/-- Nothing is trimmed from batches that are few enough. -/
theorem trimFront_zero (batches : List SinkBatch) :
    SinkBatch.trimFront 0 batches = (batches, 0) := by
  cases batches with
  | nil => rfl
  | cons batch rest => rfl

/-- Arming the sink for the next worker keeps what holds, if nothing is left in the buffer. -/
theorem appendStreaming_sound (sound : system.Sound) (keeps : system.KeepsBatches .appendStreaming)
    (done : system.appendStreaming = some next) : next.Sound := by
  obtain ⟨stretches, outs, held, dropped, accounts, empty⟩ := sound.accounts
  unfold appendStreaming at done
  split at done
  · exact nomatch done
  · rename_i active
    obtain rfl := Option.some.inj done
    obtain ⟨ended, noEvents, between, drained⟩ :=
      sound.scheduled.idle (Bool.eq_false_of_not_eq_true active)
    refine ⟨?_, ⟨fun _ => rfl, fun _ _ => rfl⟩, ?_⟩
    · -- No call and no drain is left of the stream that has ended.
      constructor
      · exact fun generation begun => nomatch between.symm.trans begun
      · intro call member
        rw [noEvents] at member
        exact absurd member List.not_mem_nil
      · exact fun waits => absurd rfl waits
      · exact fun posted => nomatch posted
      · intro _
        refine ⟨rfl, fun call member => ?_⟩
        rw [noEvents] at member
        exact absurd member List.not_mem_nil
      · intro call member
        rw [noEvents] at member
        exact absurd member List.not_mem_nil
      · exact fun inactive => nomatch inactive
    · obtain ⟨stretches, outs, accounts⟩ := accounts.release { system with
          sink := system.sink.arm
          worker := .ready
          countedBefore := system.countedBefore + system.sink.pausedDropCount }
        drained (accounts.buffered.of_blank keeps) (Nat.zero_le _) rfl rfl rfl (by rw [ended]; rfl)
        (List.append_nil _).symm rfl
      exact ⟨stretches, outs, [], 0, accounts, fun _ => rfl⟩

/-- A step that keeps batches keeps what holds. -/
theorem step_sound {item : SinkStep} (sound : system.Sound) (keeps : system.KeepsBatches item)
    (done : system.step item = some next) : next.Sound := by
  obtain ⟨stretches, outs, held, dropped, accounts, empty⟩ := sound.accounts
  have scheduled := sound.scheduled
  have ordered := sound.ordered
  unfold step at done
  cases item with
  -- A batch is received and in the worker's hand; nothing else has moved.
  | onBatch batch =>
    simp only at done
    split at done
    · rename_i at_
      obtain rfl := Option.some.inj done
      refine ⟨scheduled.setWorker (by simp [SleepsOn, at_]) _ _ _ _,
        ⟨ordered.running, fun _ there => nomatch there⟩,
        stretches, outs, held, dropped, ⟨?_, accounts.handed, accounts.delivers, accounts.buffered,
        accounts.counted⟩,
        empty⟩
      rw [accounts.received, at_]
      simp [SinkWorker.inHand]
    · exact nomatch done
  | worker => exact stepWorker_sound sound keeps done
  -- The end of the stream is posted, with nothing in the worker's hand.
  | onFinished cancelled =>
    simp only at done
    split at done
    · rename_i at_
      obtain rfl := Option.some.inj done
      refine ⟨onFinished_scheduled scheduled at_ cancelled,
        ⟨ordered.running, fun _ there => nomatch there⟩,
        stretches, outs, held, dropped, ⟨?_, accounts.handed, accounts.delivers, accounts.buffered,
        accounts.counted⟩,
        empty⟩
      rw [accounts.received, at_]
      rfl
    · exact nomatch done
  | drainAll => exact drainAll_sound sound done
  | runEvent =>
    simp only at done
    split at done
    · exact nomatch done
    · rename_i between
      exact runEvent_sound sound (by simpa using between) done
  -- From now on the buffer is in use.
  | pause =>
    simp only at done
    split at done
    · exact nomatch done
    · obtain rfl := Option.some.inj done
      exact ⟨⟨scheduled.draining, scheduled.posted, scheduled.woken, scheduled.scheduled,
        scheduled.live,
        scheduled.last, scheduled.idle⟩, ⟨fun goes => (nomatch goes), ordered.enqueueing⟩,
        stretches, outs, held, dropped,
        ⟨accounts.received, accounts.handed, accounts.delivers, accounts.buffered,
        accounts.counted⟩, empty⟩
  | resume =>
    simp only at done
    split at done
    · exact nomatch done
    · obtain rfl := Option.some.inj done
      exact resume_sound sound keeps
  | trimPausedBufferTo maxBufferedLines =>
    simp only at done
    split at done
    · exact nomatch done
    · obtain rfl := Option.some.inj done
      -- A buffer within the bound is not trimmed.
      have nothing : SinkBatch.lineCount system.sink.pausedBatches - maxBufferedLines = 0 :=
        Nat.sub_eq_zero_of_le keeps
      have same : system.sink.trimPausedBufferTo maxBufferedLines = system.sink := by
        simp only [StreamingLogSink.trimPausedBufferTo, nothing, trimFront_zero]
      rw [same]
      exact sound
  -- A cap binds the batches that come after it.
  | setRetentionCap cap =>
    simp only at done
    split at done
    · exact nomatch done
    · obtain rfl := Option.some.inj done
      exact ⟨⟨scheduled.draining, scheduled.posted, scheduled.woken, scheduled.scheduled,
        scheduled.live,
        scheduled.last, scheduled.idle⟩, ⟨ordered.running, ordered.enqueueing⟩, stretches, outs,
        held, dropped,
        ⟨accounts.received, accounts.handed, accounts.delivers, accounts.buffered,
        accounts.counted⟩, empty⟩
  | appendStreaming =>
    simp only at done
    split at done
    · exact nomatch done
    · exact appendStreaming_sound sound keeps done

/-- What holds when the first stream is armed. -/
theorem start_sound (capacity : Nat) : (start capacity).Sound := by
  -- At the start nothing is posted, buffered or handed over.
  refine ⟨⟨?_, ?_, ?_, ?_, ?_, ?_, ?_⟩, ⟨fun _ => rfl, fun _ _ => rfl⟩, [], [], [], 0,
    ⟨rfl, rfl, .nil, .refl [], rfl⟩,
    fun _ => rfl⟩
  · exact fun _ begun => nomatch begun
  · exact fun _ member => absurd member List.not_mem_nil
  · exact fun waits => absurd rfl waits
  · exact fun posted => nomatch posted
  · exact fun _ => ⟨rfl, fun _ member => absurd member List.not_mem_nil⟩
  · exact fun _ member => absurd member List.not_mem_nil
  · exact fun inactive => nomatch inactive

/-- A quiet system has nothing left in its queue. -/
theorem Scheduled.drained (scheduled : system.Scheduled) (quiet : system.Quiet) :
    system.sink.pending = [] := by
  -- Whatever waits is announced by the worker, by a posted call, or by a drain that has begun.
  by_contra waits
  obtain ⟨outside, noEvents, between⟩ := quiet
  rcases scheduled.woken waits with posted | enqueued | draining
  · rcases scheduled.scheduled posted with posting | ⟨call, member, -⟩
    · rw [posting] at outside
      exact outside.elim nofun nofun
    · rw [noEvents] at member
      exact absurd member List.not_mem_nil
  · rw [enqueued] at outside
    exact outside.elim nofun nofun
  · exact draining between

end Steps

section Runs

/-- In every run whose steps keep batches, the batches are handed over in the order of their
`OnBatch` calls, with everything they carry but counted rows, and a quiet system has handed over all
that the buffer does not hold. -/
theorem run_deliversReceived {capacity : Nat} {steps : List SinkStep} {system : SinkSystem}
    (clean : CleanRun step KeepsBatches (start capacity) steps)
    (done : run (start capacity) steps = some system) :
    system.DeliversReceived ∧ (system.Quiet → system.sink.pending = []) := by
  have sound : system.Sound :=
    clean.invariant Sound (fun _ _ _ sound keeps => step_sound sound keeps)
      (start_sound capacity) done
  obtain ⟨stretches, outs, held, dropped, accounts, -⟩ := sound.accounts
  exact ⟨⟨stretches, outs, held, dropped, accounts⟩, sound.scheduled.drained⟩

/-- A batch of rows. -/
def rowsBatch (lineIds : List Nat) : SinkBatch :=
  ⟨⟨lineIds.map fun lineId => .ofField 0 lineId 0 .monostate, [], [], []⟩, [], 1⟩

/-- Two rows come in while the stream is paused, and one of them fits under the cap. -/
def cappedRun : List SinkStep :=
  [.setRetentionCap 1, .pause, .onBatch (rowsBatch [1, 2]), .worker, .worker, .worker, .resume]

/-- The second row is handed over, and the first one is counted. -/
theorem cappedRun_deliversReceived :
    ∃ system, run (start 2) cappedRun = some system ∧ system.DeliversReceived ∧
      (system.Quiet → system.sink.pending = []) ∧
      system.handed.flatMap (·.lines.map (·.lineId)) = [2] ∧ system.sink.pausedDropCount = 1 := by
  have reached : (run (start 2) cappedRun).map (fun system =>
      (system.handed.flatMap (·.lines.map (·.lineId)), system.sink.pausedDropCount)) =
        some ([2], 1) := by
    decide
  obtain ⟨system, done, shows⟩ := Option.map_eq_some_iff.mp reached
  have clean : CleanRun step KeepsBatches (start 2) cappedRun := by
    refine ⟨trivial, fun _ capped => ⟨trivial, fun _ paused => ⟨trivial, fun _ began => ?_⟩⟩⟩
    obtain rfl := Option.some.inj capped
    obtain rfl := Option.some.inj paused
    obtain rfl := Option.some.inj began
    refine ⟨fun _ _ at_ => (nomatch at_), fun _ first => ?_⟩
    obtain rfl := Option.some.inj first
    refine ⟨fun _ _ at_ => (nomatch at_), fun _ second => ?_⟩
    obtain rfl := Option.some.inj second
    refine ⟨fun batch cap at_ _ => ?_, fun _ third => ⟨fun _ _ => ?_, fun _ _ => trivial⟩⟩
    · -- The batch that is trimmed carries nothing but rows.
      obtain ⟨rfl, rfl⟩ := SinkWorker.buffering.inj at_
      intro front other back parts _ _
      have member : other ∈ [rowsBatch [1, 2]] := by
        rw [show [rowsBatch [1, 2]] = front ++ other :: back from parts]
        exact List.mem_append_right _ List.mem_cons_self
      rw [List.mem_singleton.mp member]
      exact ⟨rfl, rfl, rfl, rfl⟩
    · obtain rfl := Option.some.inj third
      rfl
  obtain ⟨delivers, drained⟩ := run_deliversReceived clean done
  exact ⟨system, done, delivers, drained, congrArg Prod.fst shows, congrArg Prod.snd shows⟩

/-- One row waits in the queue, another one comes in while the stream is paused, and the stream is
resumed before the posted drain runs. -/
def overtakingRun : List SinkStep :=
  [.onBatch (rowsBatch [1]), .worker, .worker, .worker, .worker, .pause, .onBatch (rowsBatch [2]),
    .worker, .worker,
    .worker, .resume, .runEvent, .drainAll]

/-- The later row is handed over first. -/
theorem overtakingRun_handed :
    ∃ system, run (start 2) overtakingRun = some system ∧
      system.received.flatMap (·.lines.map (·.lineId)) = [1, 2] ∧
      system.handed.flatMap (·.lines.map (·.lineId)) = [2, 1] := by
  -- The run is evaluated.
  have reached : (run (start 2) overtakingRun).map (fun system =>
      (system.received.flatMap (·.lines.map (·.lineId)),
        system.handed.flatMap (·.lines.map (·.lineId)))) =
        some ([1, 2], [2, 1]) := by
    decide
  obtain ⟨system, done, shows⟩ := Option.map_eq_some_iff.mp reached
  exact ⟨system, done, congrArg Prod.fst shows, congrArg Prod.snd shows⟩

end Runs

end SinkSystem

end Loglib
