import Loglib.Basic.Runs
import Loglib.Pipeline.BatchCoalescer

/-! The bounded queue between a parser's worker and the window, and the report of batches it
rejected. -/

namespace Loglib

/-- `BoundedBatchQueue`. -/
structure BoundedBatchQueue where
  items : List SinkBatch
  capacity : Nat
  stopped : Bool
  /-- `mDroppedDuringShutdown`. -/
  dropped : Nat

namespace BoundedBatchQueue

/-- The constructor. -/
def ofCapacity (capacity : Nat) : BoundedBatchQueue :=
  ⟨[], if capacity = 0 then 1 else capacity, false, 0⟩

/-- `WaitEnqueue`: whether the batch was taken. `none` while it has to wait. -/
def waitEnqueue (queue : BoundedBatchQueue) (batch : SinkBatch) :
    Option (BoundedBatchQueue × Bool) :=
  if queue.items.length < queue.capacity then some ({ queue with items := queue.items ++ [batch] },
    true)
  else if queue.stopped then some ({ queue with dropped := queue.dropped + 1 }, false)
  else none

/-- `DrainAll`. -/
def drainAll (queue : BoundedBatchQueue) : List SinkBatch × BoundedBatchQueue :=
  (queue.items, { queue with items := [] })

/-- `NotifyStop`. -/
def notifyStop (queue : BoundedBatchQueue) : BoundedBatchQueue := { queue with stopped := true }

/-- `Reset`. -/
def reset (queue : BoundedBatchQueue) : BoundedBatchQueue :=
  { queue with items := [], stopped := false, dropped := 0 }

end BoundedBatchQueue

/-- An entry of `mStreamingErrors`. -/
inductive StreamingError where
  | parse (text : Bytes)
  /-- Batches lost by a stop. -/
  | lost (count : Nat)

namespace StreamingError

/-- The number in an entry about lost batches. -/
def lostCount : StreamingError → Nat
  | .parse _ => 0
  | .lost count => count

end StreamingError

/-- What becomes of a batch that the queue has accepted. -/
inductive BatchFate where
  | drained
  /-- Discarded by a teardown. -/
  | discarded
  /-- Cleared when the queue was armed again without a teardown. -/
  | overwritten
deriving DecidableEq, Repr

/-- The queue with its worker, the model's list of errors, and what has happened to the batches. -/
structure BatchHandoff where
  queue : BoundedBatchQueue
  workerRunning : Bool
  /-- `mStreamingErrors`. -/
  errors : List StreamingError
  /-- `mLastReportedShutdownDropCount`. -/
  lastReported : Nat
  /-- All batches that `WaitEnqueue` has accepted. -/
  accepted : List SinkBatch
  /-- The batches that have left the queue, in the order in which they did. -/
  settled : List (SinkBatch × BatchFate)
  /-- How many batches `WaitEnqueue` has rejected since the session began. -/
  rejected : Nat

/-- A step of the worker, or a call on the window's thread. -/
inductive HandoffStep where
  | waitEnqueue (batch : SinkBatch)
  | workerDone
  | drainAll
  /-- `AppendBatch` of the model notes the errors of a batch. -/
  | appendBatch (errors : List Bytes)
  /-- `RequestStop`. -/
  | requestStop
  /-- The end of a teardown, with the worker joined: `DropPendingBatches`, and a new session if the
  table is reset. -/
  | finishTeardown (resetTable : Bool)
  /-- `BeginStreaming`: a new session, `Arm` and a new worker. -/
  | beginStreaming
  /-- `AppendStreaming`: `Arm` and a new worker, in the same session. -/
  | appendStreaming
  | streamingErrors

namespace BatchHandoff

/-- The handoff of a new model. -/
def start (capacity : Nat) : BatchHandoff := ⟨.ofCapacity capacity, false, [], 0, [], [], 0⟩

/-- The difference of two `size_t` values. -/
def sizeDifference (first second : Nat) : Nat := if second ≤ first then first - second
    else first + 2 ^ 64 - second

/-- `StreamingErrors`, which adds an entry when the counter is not the one last reported. -/
def streamingErrors (handoff : BatchHandoff) : BatchHandoff :=
  if handoff.queue.dropped = handoff.lastReported then handoff
  else
    { handoff with
      errors := handoff.errors ++
        [.lost (sizeDifference handoff.queue.dropped handoff.lastReported)]
      lastReported := handoff.queue.dropped }

/-- The queue's `Reset`, which settles what it still holds. -/
def resetQueue (handoff : BatchHandoff) (fate : BatchFate) : BatchHandoff :=
  { handoff with
    queue := handoff.queue.reset
    settled := handoff.settled ++ handoff.queue.items.map (·, fate) }

/-- The model forgets the errors of the session before. -/
def newSession (handoff : BatchHandoff) : BatchHandoff :=
  { handoff with errors := [], lastReported := 0, rejected := 0 }

/-- One step. `none` where it cannot be taken: a call that has to wait, or a contract that
is not kept. -/
def step (handoff : BatchHandoff) : HandoffStep → Option BatchHandoff
  | .waitEnqueue batch =>
    -- A batch is handed over only while the worker runs.
    if handoff.workerRunning then
      (handoff.queue.waitEnqueue batch).map fun (queue, taken) =>
        if taken then { handoff with queue, accepted := handoff.accepted ++ [batch] }
        else { handoff with queue, rejected := handoff.rejected + 1 }
    else none
  | .workerDone =>
    if handoff.workerRunning then some { handoff with workerRunning := false } else none
  | .drainAll =>
    let (drained, queue) := handoff.queue.drainAll
    some { handoff with queue, settled := handoff.settled ++ drained.map (·, .drained) }
  | .appendBatch errors => some { handoff with errors := handoff.errors ++ errors.map .parse }
  | .requestStop => some { handoff with queue := handoff.queue.notifyStop }
  | .finishTeardown resetTable =>
    if handoff.workerRunning then none
    else
      let dropped := handoff.resetQueue .discarded
      -- What the queue still holds is discarded with the session.
      some (if resetTable then dropped.newSession else dropped)
  | .beginStreaming =>
    if handoff.workerRunning then none
    -- A new session overwrites what is left of the old one, and an appended one as well.
    else some { handoff.newSession.resetQueue .overwritten with workerRunning := true }
  | .appendStreaming =>
    if handoff.workerRunning then none
    else some { handoff.resetQueue .overwritten with workerRunning := true }
  | .streamingErrors => some handoff.streamingErrors

/-- The numbers in the entries about lost batches, added up. -/
def lostTotal (errors : List StreamingError) : Nat := (errors.map (·.lostCount)).sum

/-- Every batch is accounted for. -/
structure Accounts (handoff : BatchHandoff) : Prop where
  bounded : handoff.queue.items.length ≤ handoff.queue.capacity
  settled : handoff.accepted = handoff.settled.map (·.1) ++ handoff.queue.items
  onlyTeardown : ∀ entry ∈ handoff.settled, entry.2 ≠ .overwritten
  /-- What `StreamingErrors` returns now has all rejected batches. -/
  reported : lostTotal handoff.streamingErrors.errors = handoff.rejected
  noWrap : handoff.lastReported ≤ handoff.queue.dropped

/-- A queue that is armed again is empty, and its counter is not taken away from a session
that goes on. -/
def KeepsCounts (handoff : BatchHandoff) : HandoffStep → Prop
  | .finishTeardown false => handoff.queue.dropped = 0
  | .beginStreaming => handoff.queue.items = []
  | .appendStreaming => handoff.queue.items = [] ∧ handoff.queue.dropped = 0
  | _ => True

/-- What holds after clean steps. -/
structure Counted (handoff : BatchHandoff) : Prop where
  bounded : handoff.queue.items.length ≤ handoff.queue.capacity
  settled : handoff.accepted = handoff.settled.map (·.1) ++ handoff.queue.items
  onlyTeardown : ∀ entry ∈ handoff.settled, entry.2 ≠ .overwritten
  entries : lostTotal handoff.errors = handoff.lastReported
  noWrap : handoff.lastReported ≤ handoff.queue.dropped
  rejected : handoff.rejected = handoff.queue.dropped

/-- Reports add up. -/
@[simp] theorem lostTotal_append (first second : List StreamingError) :
    lostTotal (first ++ second) = lostTotal first + lostTotal second := by
  simp [lostTotal]

/-- Parse errors report no loss. -/
@[simp] theorem lostTotal_parse (texts : List Bytes) : lostTotal (texts.map .parse) = 0 := by
  induction texts with
  | nil => rfl
  | cons text rest ih => simpa [lostTotal, StreamingError.lostCount] using ih

/-- A report adds what has been rejected since the last one. -/
theorem lostTotal_streamingErrors {handoff : BatchHandoff}
    (entries : lostTotal handoff.errors = handoff.lastReported)
    (noWrap : handoff.lastReported ≤ handoff.queue.dropped) :
    lostTotal handoff.streamingErrors.errors = handoff.queue.dropped := by
  unfold streamingErrors
  -- Without a new loss nothing is reported; otherwise the difference is.
  split
  · rename_i same
    rw [entries, same]
  · simp only [lostTotal_append, entries, sizeDifference, if_pos noWrap]
    simp only [lostTotal, StreamingError.lostCount, List.map_cons, List.map_nil, List.sum_cons,
      List.sum_nil]
    omega

/-- Counted batches are accounted for. -/
theorem Counted.accounts {handoff : BatchHandoff} (counted : handoff.Counted) : handoff.Accounts :=
  ⟨counted.bounded, counted.settled, counted.onlyTeardown,
    (lostTotal_streamingErrors counted.entries counted.noWrap).trans counted.rejected.symm,
    counted.noWrap⟩

/-- The order in which batches leave the queue is the order in which they came. -/
theorem map_fst_fate (batches : List SinkBatch) (fate : BatchFate) :
    (batches.map fun batch => (batch, fate)).map (·.1) = batches := by
  simp [Function.comp_def]

/-- A reset settles everything and starts the count of rejections again. -/
theorem resetQueue_settled (handoff : BatchHandoff) (fate : BatchFate)
    (settled : handoff.accepted = handoff.settled.map (·.1) ++ handoff.queue.items) :
    (handoff.resetQueue fate).accepted =
      (handoff.resetQueue fate).settled.map (·.1) ++ (handoff.resetQueue fate).queue.items := by
  simp only [resetQueue, BoundedBatchQueue.reset, List.map_append, map_fst_fate, List.append_nil]
  exact settled

/-- Batches that are discarded on purpose leave only settled batches behind. -/
theorem resetQueue_onlyTeardown (handoff : BatchHandoff) (fate : BatchFate)
    (onlyTeardown : ∀ entry ∈ handoff.settled, entry.2 ≠ .overwritten)
    (allowed : fate ≠ .overwritten ∨ handoff.queue.items = []) :
    ∀ entry ∈ (handoff.resetQueue fate).settled, entry.2 ≠ .overwritten := by
  intro entry member
  -- What a teardown settles is not overwritten, unless the queue was empty.
  obtain old | fresh := List.mem_append.mp member
  · exact onlyTeardown entry old
  · obtain ⟨batch, held, rfl⟩ := List.mem_map.mp fresh
    obtain differs | empty := allowed
    · exact differs
    · simp [empty] at held

/-- A queue that is armed again while it holds batches loses them. -/
theorem resetQueue_overwritten (handoff : BatchHandoff)
    (onlyTeardown : ∀ entry ∈ (handoff.resetQueue .overwritten).settled, entry.2 ≠ .overwritten) :
    handoff.queue.items = [] := by
  cases items : handoff.queue.items with
  | nil => rfl
  | cons batch rest =>
    refine absurd rfl (onlyTeardown (batch, .overwritten) ?_)
    simp [resetQueue, items]

/-- A call of `WaitEnqueue` that comes back either takes the batch or counts it. -/
theorem Counted.waitEnqueue {handoff next : BatchHandoff} {batch : SinkBatch}
    (counted : handoff.Counted)
    (done : handoff.step (.waitEnqueue batch) = some next) : next.Counted := by
  obtain ⟨bounded, settled, onlyTeardown, entries, noWrap, rejected⟩ := counted
  simp only [step] at done
  -- The batch enters the queue if there is room, is counted as dropped if there is none and the
  -- waiting has ended, and waits otherwise.
  split at done
  · simp only [BoundedBatchQueue.waitEnqueue] at done
    split at done
    · rename_i room
      simp only [Option.map_some, if_true, Option.some.injEq] at done
      subst done
      refine ⟨?_, ?_, onlyTeardown, entries, noWrap, rejected⟩
      · simp only [List.length_append, List.length_singleton]
        omega
      · simp only [settled, List.append_assoc]
    · split at done
      · simp only [Option.map_some, Bool.false_eq_true, if_false, Option.some.injEq] at done
        subst done
        refine ⟨bounded, settled, onlyTeardown, entries, ?_, ?_⟩
        · simp only
          omega
        · simp only [rejected]
      · simp at done
  · cases done

/-- A report makes the errors agree with the counter. -/
theorem Counted.streamingErrors {handoff : BatchHandoff} (counted : handoff.Counted) :
    handoff.streamingErrors.Counted := by
  -- Polling the errors reports what has been dropped since the last time.
  have total := lostTotal_streamingErrors counted.entries counted.noWrap
  have reported : handoff.streamingErrors.lastReported = handoff.queue.dropped := by
    unfold BatchHandoff.streamingErrors
    split
    · rename_i same
      exact same.symm
    · rfl
  -- It touches no other counter.
  have others : handoff.streamingErrors.queue = handoff.queue ∧
      handoff.streamingErrors.accepted = handoff.accepted ∧
      handoff.streamingErrors.settled = handoff.settled ∧
      handoff.streamingErrors.rejected = handoff.rejected := by
    unfold BatchHandoff.streamingErrors
    split <;> exact ⟨rfl, rfl, rfl, rfl⟩
  obtain ⟨queue, accepted, settled, rejected⟩ := others
  exact ⟨by rw [queue]; exact counted.bounded, by rw [queue, accepted, settled]; exact counted.settled,
    by rw [settled]; exact counted.onlyTeardown, by rw [total, reported], by rw [reported, queue],
    by rw [rejected, queue]; exact counted.rejected⟩

/-- Clean steps keep the counts. -/
theorem step_counted {handoff next : BatchHandoff} {item : HandoffStep} (counted : handoff.Counted)
    (keeps : handoff.KeepsCounts item) (done : handoff.step item = some next) : next.Counted := by
  have whole := counted
  obtain ⟨bounded, settled, onlyTeardown, entries, noWrap, rejected⟩ := counted
  cases item with
  | waitEnqueue batch => exact whole.waitEnqueue done
  | workerDone =>
    simp only [step] at done
    split at done
    · obtain rfl := Option.some.inj done
      exact ⟨bounded, settled, onlyTeardown, entries, noWrap, rejected⟩
    · cases done
  | drainAll =>
    obtain rfl := Option.some.inj done
    refine ⟨Nat.zero_le _, ?_, ?_, entries, noWrap, rejected⟩
    · simp only [List.map_append, map_fst_fate, List.append_nil]
      exact settled
    · intro entry member
      obtain old | fresh := List.mem_append.mp member
      · exact onlyTeardown entry old
      · obtain ⟨batch, -, rfl⟩ := List.mem_map.mp fresh
        simp
  | appendBatch errors =>
    obtain rfl := Option.some.inj done
    exact ⟨bounded, settled, onlyTeardown, by simpa using entries, noWrap, rejected⟩
  | requestStop =>
    obtain rfl := Option.some.inj done
    exact ⟨bounded, settled, onlyTeardown, entries, noWrap, rejected⟩
  | finishTeardown resetTable =>
    simp only [step] at done
    split at done
    · cases done
    · obtain rfl := Option.some.inj done
      have all := resetQueue_settled handoff .discarded settled
      have only := resetQueue_onlyTeardown handoff .discarded onlyTeardown (.inl (by decide))
      cases resetTable with
      | true => exact ⟨Nat.zero_le _, all, only, rfl, Nat.le_refl _, rfl⟩
      | false =>
        -- The counter was zero, so nothing is forgotten.
        have nothing : handoff.queue.dropped = 0 := keeps
        have last : handoff.lastReported = 0 := by omega
        exact ⟨Nat.zero_le _, all, only, entries, by simp [resetQueue, last],
          by simp [resetQueue, BoundedBatchQueue.reset, rejected, nothing]⟩
  | beginStreaming =>
    simp only [step] at done
    split at done
    · cases done
    · obtain rfl := Option.some.inj done
      have all := resetQueue_settled handoff.newSession .overwritten settled
      have only := resetQueue_onlyTeardown handoff.newSession .overwritten onlyTeardown
        (.inr keeps)
      exact ⟨Nat.zero_le _, all, only, rfl, Nat.le_refl _, rfl⟩
  | appendStreaming =>
    simp only [step] at done
    split at done
    · cases done
    · obtain rfl := Option.some.inj done
      obtain ⟨empty, nothing⟩ : handoff.queue.items = [] ∧ handoff.queue.dropped = 0 := keeps
      have all := resetQueue_settled handoff .overwritten settled
      have only := resetQueue_onlyTeardown handoff .overwritten onlyTeardown (.inr empty)
      have last : handoff.lastReported = 0 := by omega
      exact ⟨Nat.zero_le _, all, only, entries, by simp [resetQueue, last],
        by simp [resetQueue, BoundedBatchQueue.reset, rejected, nothing]⟩
  | streamingErrors =>
    obtain rfl := Option.some.inj done
    exact whole.streamingErrors

/-- After a reset in a session that goes on, the rejections are accounted for only if
there were none. -/
theorem dropped_of_accounts {handoff next : BatchHandoff} (counted : handoff.Counted)
    (accounts : next.Accounts)
    (zero : next.queue.dropped = 0)
    (kept : next.errors = handoff.errors ∧ next.lastReported = handoff.lastReported ∧
      next.rejected = handoff.rejected) : handoff.queue.dropped = 0 := by
  obtain ⟨errors, lastReported, rejected⟩ := kept
  have noWrap := accounts.noWrap
  have reported := accounts.reported
  -- The last report has to be zero too, so there is nothing new to report.
  have last : next.lastReported = 0 := by omega
  have same : next.streamingErrors = next := by
    unfold streamingErrors
    rw [if_pos (by rw [zero, last])]
  rw [same, errors, counted.entries, rejected, counted.rejected] at reported
  omega

/-- A step after which everything is accounted for was clean. -/
theorem step_clean {handoff next : BatchHandoff} {item : HandoffStep} (counted : handoff.Counted)
    (done : handoff.step item = some next) (accounts : next.Accounts) :
    handoff.KeepsCounts item := by
  cases item with
  -- Only teardown and the start of a session ask for a condition.
  | waitEnqueue batch => trivial
  | workerDone => trivial
  | drainAll => trivial
  | appendBatch errors => trivial
  | requestStop => trivial
  | streamingErrors => trivial
  | finishTeardown resetTable =>
    cases resetTable with
    | true => trivial
    -- Without a reset the drops of the session must have been reported.
    | false =>
      simp only [step] at done
      split at done
      · cases done
      · obtain rfl := Option.some.inj done
        exact dropped_of_accounts counted accounts rfl ⟨rfl, rfl, rfl⟩
  -- A new session forgets the counters, so none may be left.
  | beginStreaming =>
    simp only [step] at done
    split at done
    · cases done
    · obtain rfl := Option.some.inj done
      exact resetQueue_overwritten handoff.newSession accounts.onlyTeardown
  | appendStreaming =>
    simp only [step] at done
    split at done
    · cases done
    · obtain rfl := Option.some.inj done
      exact ⟨resetQueue_overwritten handoff accounts.onlyTeardown,
        dropped_of_accounts counted accounts rfl ⟨rfl, rfl, rfl⟩⟩

/-- Before the first step there is nothing to account for. -/
theorem start_counted (capacity : Nat) : (start capacity).Counted :=
  ⟨Nat.zero_le _, rfl, by simp [start], rfl, Nat.le_refl _, rfl⟩

/-- Every batch is accounted for all the way through a run if and only if the queue is
never armed again while it holds batches, and never reset in a session that goes on while
its counter is above zero. -/
theorem run_accounts_iff {capacity : Nat} {steps : List HandoffStep} {final : BatchHandoff}
    (done : steps.foldlM step (start capacity) = some final) :
    CleanRun step KeepsCounts (start capacity) steps ↔
      ∀ first rest middle, steps = first ++ rest → first.foldlM step
        (start capacity) = some middle →
        middle.Accounts :=
  cleanRun_iff_forall (fun _ _ _ counted keeps => step_counted counted keeps)
    (fun _ counted => counted.accounts) (fun _ _ _ counted => step_clean counted)
      (start_counted capacity) done

/-- A stop rejects a batch, the report comes before the teardown ends, and the next
session reports its own. -/
def reportedSteps : List HandoffStep :=
  [.beginStreaming, .waitEnqueue .empty, .requestStop, .waitEnqueue .empty, .workerDone,
    .streamingErrors, .drainAll, .finishTeardown true, .beginStreaming]

/-- The run accounts for its batches at every step. -/
theorem reportedSteps_account : ∃ final, reportedSteps.foldlM step (start 1) = some final ∧
    (final.errors.length = 0 ∧ final.settled.length = 1) ∧
    ∀ first rest middle, reportedSteps = first ++ rest → first.foldlM step (start 1) = some middle →
      middle.Accounts := by
  -- Each step is followed by the empty condition of its kind, and the last one has reported its
  -- drop.
  refine ⟨_, rfl, by decide, (run_accounts_iff rfl).mp ?_⟩
  refine ⟨rfl, fun _ first => ?_⟩
  cases first
  refine ⟨trivial, fun _ second => ?_⟩
  cases second
  refine ⟨trivial, fun _ third => ?_⟩
  cases third
  refine ⟨trivial, fun _ fourth => ?_⟩
  cases fourth
  refine ⟨trivial, fun _ fifth => ?_⟩
  cases fifth
  refine ⟨trivial, fun _ sixth => ?_⟩
  cases sixth
  refine ⟨trivial, fun _ seventh => ?_⟩
  cases seventh
  refine ⟨trivial, fun _ eighth => ?_⟩
  cases eighth
  exact ⟨rfl, fun _ _ => trivial⟩

/-- A stop that keeps the rows, with one rejected batch and a report before its end, and then
another source. -/
def appendedSteps : List HandoffStep :=
  [.beginStreaming, .waitEnqueue .empty, .requestStop, .waitEnqueue .empty, .workerDone,
    .streamingErrors, .drainAll, .finishTeardown false, .appendStreaming, .workerDone,
    .streamingErrors]

/-- The report after the appended source has the difference of zero and one, wrapped around. -/
theorem appendedSteps_wrap : ∃ final, appendedSteps.foldlM step (start 1) = some final ∧
    final.errors = [.lost 1, .lost (2 ^ 64 - 1)] ∧ final.rejected = 1 ∧
      lostTotal final.errors ≠ final.rejected :=
  ⟨_, rfl, rfl, rfl, by decide⟩

end BatchHandoff

end Loglib
