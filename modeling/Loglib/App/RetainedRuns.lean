import Loglib.App.RetainedRows

/-! Runs of a live tail under a retention cap: what holds at all times, and when the rows on screen
are the last ones. -/

namespace Loglib

/-- The owners of the rows of batches, with one more. -/
theorem SinkBatch.flatMap_owners_concat (batches : List SinkBatch) (batch : SinkBatch) :
    (batches ++ [batch]).flatMap owners = batches.flatMap owners ++ batch.owners := by
  rw [List.flatMap_append, List.flatMap_singleton]

/-- What the sink hands over of the batches that it has drained. -/
def SinkBatch.handedOver (drained : List SinkBatch) : List SinkBatch := if drained = [] then []
    else [coalesce drained]

namespace SinkSystem

/-- A drain of the stream empties the queue. -/
theorem drainAll_eq {system next : SinkSystem}
    (current : ∀ generation, system.draining = some generation →
    generation = system.sink.generation)
    (done : system.drainAll = some next) :
    next = { system with
      sink := { system.sink with pending := [] }
      draining := none
      handed := system.handed ++ SinkBatch.handedOver system.sink.pending } := by
  obtain ⟨generation, begun, rfl⟩ := Option.map_eq_some_iff.mp done
  simp only [current generation begun, if_true, appendBatch, SinkBatch.handedOver]
  split <;> simp

/-- `Resume` empties the paused buffer. -/
theorem resume_eq {system : SinkSystem} (paused : system.sink.paused = true) :
    system.resume = { system with
      sink := { system.sink with pausedBatches := [], paused := false }
      handed := system.handed ++ SinkBatch.handedOver system.sink.pausedBatches } := by
  unfold resume
  rw [if_neg (by rw [paused]; exact Bool.noConfusion)]
  simp only [appendBatch, SinkBatch.handedOver]
  split <;> simp

end SinkSystem

namespace TailSession

section Runs

variable {session next : TailSession} {parse : TimestampParser} {asks : SignalReads}

/-- What holds of a live tail at all times: the caps agree and fit, whatever is drained belongs to
the stream, nothing is held unless the stream is paused, and every row received is shown, in the
queue, held or in the hands of the worker. -/
structure Wired (session : TailSession) : Prop where
  positive : 0 < session.model.retentionCap
  small : session.model.retentionCap < 2 ^ 30
  cap : session.system.sink.retentionCap = session.model.retentionCap
  active : session.model.streamingActive = true
  rows : session.owners.length < 2 ^ 30
  drains : ∀ generation, session.system.draining = some generation →
    generation = session.system.sink.generation
  posted : ∀ call ∈ session.system.events, call = .drain session.system.sink.generation
  buffer : ∀ batch ∈ session.system.sink.pausedBatches, batch.localLineOffsets = []
  hand : ∀ batch ∈ session.system.worker.inHand, batch.localLineOffsets = []
  reads : ∀ batch cap, session.system.worker = .buffering batch cap → 0 < cap
  running : session.system.sink.paused = false → session.held = []
  enqueueing : ∀ batch, session.system.worker = .enqueueing batch → session.held = []
  onScreen : session.owners.Sublist session.shown
  inBuffer : session.buffered.Sublist session.held
  accounted : session.received.Perm (session.shown ++ session.queued ++ session.held ++
    session.inHand)
  numbered : session.received.Pairwise Before
  bounded : session.appended = true → session.owners.length ≤ session.model.retentionCap

/-- A paused batch joins the buffer, which keeps its last rows. -/
theorem bufferPaused_owners {sink : StreamingLogSink} {batch : SinkBatch} {cap : Nat}
    (positive : 0 < cap)
    (plain : ∀ batch ∈ sink.pausedBatches, batch.localLineOffsets = [])
    (single : batch.localLineOffsets = []) :
    (sink.bufferPaused batch cap).pausedBatches.flatMap SinkBatch.owners =
        (sink.pausedBatches.flatMap SinkBatch.owners ++ batch.owners).rtake cap ∧
      ∀ held ∈ (sink.bufferPaused batch cap).pausedBatches, held.localLineOffsets = [] := by
  have all : ∀ held ∈ sink.pausedBatches ++ [batch], held.localLineOffsets = [] := by
    intro held member
    obtain old | fresh := List.mem_append.mp member
    · exact plain held old
    · rw [List.mem_singleton.mp fresh]
      exact single
  have trimmed := @SinkBatch.trimFront_owners
    (StreamingLogSink.excess cap (sink.pausedBatches ++ [batch])) _ all
  refine ⟨trimmed.1.trans ?_, trimmed.2⟩
  have joined := SinkBatch.flatMap_owners_concat sink.pausedBatches batch
  have size := SinkBatch.length_flatMap_owners (sink.pausedBatches ++ [batch])
  rw [joined] at size
  -- What is above the cap goes.
  have excess : StreamingLogSink.excess cap (sink.pausedBatches ++ [batch]) =
      (sink.pausedBatches.flatMap SinkBatch.owners ++ batch.owners).length - cap := by
    unfold StreamingLogSink.excess
    rw [if_neg (by omega), size]
  rw [joined, excess]
  rfl

/-- `TrimPausedBufferTo` leaves the last rows. -/
theorem trimPausedBufferTo_owners {sink : StreamingLogSink} {room : Nat}
    (plain : ∀ batch ∈ sink.pausedBatches, batch.localLineOffsets = []) :
    (sink.trimPausedBufferTo room).pausedBatches.flatMap SinkBatch.owners =
        (sink.pausedBatches.flatMap SinkBatch.owners).rtake room ∧
      ∀ held ∈ (sink.trimPausedBufferTo room).pausedBatches, held.localLineOffsets = [] := by
  have trimmed := @SinkBatch.trimFront_owners (SinkBatch.lineCount sink.pausedBatches -
    room) _ plain
  rw [← SinkBatch.length_flatMap_owners] at trimmed
  unfold StreamingLogSink.trimPausedBufferTo
  rw [← SinkBatch.length_flatMap_owners]
  exact trimmed

/-- Lines in order are different lines. -/
theorem nodup_of_before {rows : List LineOwner} (numbered : rows.Pairwise Before) : rows.Nodup :=
  numbered.imp fun ordered same => absurd ordered.2 (by simp [same])

/-- No row is shown twice. -/
theorem Wired.distinct (wired : session.Wired) : session.shown.Nodup := by
  have all := wired.accounted.nodup_iff.mp (nodup_of_before wired.numbered)
  rw [List.append_assoc, List.append_assoc] at all
  exact all.of_append_left

/-- A batch of the tail is in the hands of the worker. -/
theorem Wired.onBatch {batch : SinkBatch} (wired : session.Wired)
    (follows : session.FollowsOn batch)
    (done : session.sinkStep (.onBatch batch) = some next) : next.Wired ∧ session.Accords next := by
  obtain ⟨system, begun, rfl⟩ := Option.map_eq_some_iff.mp done
  simp only [SinkSystem.step] at begun
  split at begun
  · rename_i ready
    obtain rfl := Option.some.inj begun
    -- The worker is between batches and holds none.
    have empty : session.inHand = [] := by
      unfold inHand
      rw [ready]
      rfl
    have more := SinkBatch.flatMap_owners_concat session.system.received batch
    have accounted := wired.accounted
    rw [empty, List.append_nil] at accounted
    refine ⟨{ wired with
      hand := fun own member => List.mem_singleton.mp member ▸ follows.1.1
      reads := fun _ _ at_ => by cases at_
      enqueueing := fun _ at_ => by cases at_
      accounted := ?_
      numbered := ?_
      bounded := fun appended => by cases appended }, accords_of_same rfl rfl rfl⟩
    · -- What has been received grows by the batch, which is now in the worker's hand.
      show ((session.system.received ++ [batch]).flatMap SinkBatch.owners).Perm
        (_ ++ [batch].flatMap SinkBatch.owners)
      rw [more, List.flatMap_singleton]
      exact accounted.append_right _
    · show ((session.system.received ++ [batch]).flatMap SinkBatch.owners).Pairwise Before
      rw [more]
      exact follows.2
  · cases begun

/-- The worker is further in `OnBatch`, with the same rows. -/
theorem Wired.setWorker (wired : session.Wired) {worker : SinkWorker}
    (same : worker.inHand = session.system.worker.inHand)
    (reads : ∀ batch cap, worker = .buffering batch cap → 0 < cap)
    (enqueueing : ∀ batch, worker = .enqueueing batch → session.held = [])
    {drainScheduled : Bool} {events : List PostedCall}
    (posted : ∀ call ∈ events, call = .drain session.system.sink.generation) :
    ({ session.quiet with
        system := { session.system with
          sink := { session.system.sink with drainScheduled }
          worker
          events }
        held := session.held ++ [] } : TailSession).Wired := by
  -- What the worker has in hand stays the same.
  have hand : ({ session.quiet with system := { session.system with worker } } :
      TailSession).inHand = session.inHand :=
    congrArg (List.flatMap SinkBatch.owners) same
  rw [List.append_nil]
  exact { wired with
    posted, reads, enqueueing
    hand := fun batch member => wired.hand batch (same ▸ member)
    accounted := hand ▸ wired.accounted
    bounded := fun appended => by cases appended }

/-- The worker leaves its batch in the paused buffer. -/
theorem Wired.buffer_ (wired : session.Wired) {batch : SinkBatch} {cap : Nat}
    (at_ : session.system.worker = .buffering batch cap)
    (paused : session.system.sink.paused = true) :
    ({ session.quiet with
        system := { session.system with
          sink := session.system.sink.bufferPaused batch cap
          worker := .ready }
        held := session.held ++ batch.owners } : TailSession).Wired := by
  -- The batch that the worker holds is plain, so the buffer keeps the newest of its rows.
  have single := wired.hand batch (by rw [at_]; exact List.mem_singleton_self batch)
  obtain ⟨kept, plain⟩ := bufferPaused_owners (wired.reads batch cap at_) wired.buffer single
  have hand : session.inHand = batch.owners := by
    unfold inHand
    rw [at_]
    exact List.flatMap_singleton ..
  have accounted := wired.accounted
  rw [hand] at accounted
  exact { wired with
    buffer := plain
    hand := fun _ member => absurd member List.not_mem_nil
    reads := fun _ _ at_ => by cases at_
    running := fun running => absurd (paused.symm.trans running) Bool.noConfusion
    enqueueing := fun _ at_ => by cases at_
    -- The buffer drops from its front, and what is held grows at its end.
    inBuffer := by
      show ((session.system.sink.bufferPaused batch cap).pausedBatches.flatMap
        SinkBatch.owners).Sublist _
      rw [kept]
      exact (List.drop_sublist _ _).trans (wired.inBuffer.append_right _)
    -- The rows move from the worker's hand to what is held.
    accounted := by
      show session.received.Perm
        (session.shown ++ session.queued ++ (session.held ++ batch.owners) ++ [])
      rw [List.append_nil, ← List.append_assoc]
      exact accounted
    bounded := fun appended => by cases appended }

/-- The worker leaves its batch in the queue. -/
theorem Wired.enqueue (wired : session.Wired) {batch : SinkBatch}
    (at_ : session.system.worker = .enqueueing batch) :
    ({ session.quiet with
        system := { session.system with
          sink := { session.system.sink with pending := session.system.sink.pending ++ [batch] }
          worker := .enqueued }
        held := session.held ++ [] } : TailSession).Wired := by
  -- The queue runs, so nothing is held, and the batch goes behind what is queued.
  have hand : session.inHand = batch.owners := by
    unfold inHand
    rw [at_]
    exact List.flatMap_singleton ..
  have accounted := wired.accounted
  have empty := wired.enqueueing batch at_
  rw [hand, empty, List.append_nil] at accounted
  rw [List.append_nil]
  exact { wired with
    hand := fun _ member => absurd member List.not_mem_nil
    reads := fun _ _ at_ => by cases at_
    enqueueing := fun _ at_ => by cases at_
    accounted := by
      show session.received.Perm
        (session.shown ++ (session.system.sink.pending ++ [batch]).flatMap SinkBatch.owners ++
          session.held ++ [])
      rw [empty, List.append_nil, List.append_nil, SinkBatch.flatMap_owners_concat,
        ← List.append_assoc]
      exact accounted
    bounded := fun appended => by cases appended }

/-- What an access of the worker does: it leaves its batch in the buffer or in the queue,
or changes no row. -/
theorem worker_cases (wired : session.Wired) (done : session.step parse .worker = some next) :
    (∃ batch cap, session.system.worker = .buffering batch cap ∧ session.system.sink.paused = true ∧
        next = { session.quiet with
          system := { session.system with
            sink := session.system.sink.bufferPaused batch cap
            worker := .ready }
          held := session.held ++ batch.owners }) ∨
      (∃ batch, session.system.worker = .enqueueing batch ∧
        next = { session.quiet with
          system := { session.system with
            sink := { session.system.sink with pending := session.system.sink.pending ++ [batch] }
            worker := .enqueued }
          held := session.held ++ [] }) ∨
      ∃ worker drainScheduled events, worker.inHand = session.system.worker.inHand ∧
        (∀ batch cap, worker = .buffering batch cap → 0 < cap) ∧
          (∀ batch, worker = .enqueueing batch → session.held = []) ∧
        (∀ call ∈ events, call = .drain session.system.sink.generation) ∧
        next = { session.quiet with
          system := { session.system with
            sink := { session.system.sink with drainScheduled }
            worker
            events }
          held := session.held ++ [] } := by
  obtain ⟨between, stepped, rfl⟩ := Option.map_eq_some_iff.mp done
  obtain ⟨system, moved, rfl⟩ := Option.map_eq_some_iff.mp stepped
  replace moved : session.system.stepWorker = some system := moved
  unfold SinkSystem.stepWorker at moved
  unfold arriving
  generalize held : session.system.worker = worker at moved
  cases worker with
  | ready => cases moved
  | began batch =>
    obtain rfl := Option.some.inj moved
    refine .inr (.inr ⟨_, session.system.sink.drainScheduled, session.system.events, ?_, ?_, ?_,
      wired.posted, rfl⟩)
    · split <;> rfl
    · intro _ _ at_
      split at at_ <;> cases at_
    · intro _ at_
      split at at_
      · cases at_
      · rename_i running
        exact wired.running (Bool.eq_false_iff.mpr running)
  | sawPaused batch =>
    obtain rfl := Option.some.inj moved
    refine .inr (.inr ⟨.buffering batch session.system.sink.retentionCap,
      session.system.sink.drainScheduled,
      session.system.events, rfl, ?_, (fun _ at_ => by cases at_), wired.posted, rfl⟩)
    -- The cap that is read is the one in force.
    intro _ cap at_
    obtain ⟨-, rfl⟩ := SinkWorker.buffering.inj at_
    rw [wired.cap]
    exact wired.positive
  | buffering batch cap =>
    simp only at moved ⊢
    split at moved
    · rename_i paused
      obtain rfl := Option.some.inj moved
      rw [if_pos paused]
      exact .inl ⟨batch, cap, rfl, paused, rfl⟩
    · rename_i running
      obtain rfl := Option.some.inj moved
      rw [if_neg running]
      refine .inr (.inr ⟨.enqueueing batch, session.system.sink.drainScheduled,
        session.system.events, rfl,
        (fun _ _ at_ => by cases at_), ?_, wired.posted, rfl⟩)
      exact fun _ _ => wired.running (Bool.eq_false_iff.mpr running)
  | enqueueing batch =>
    simp only at moved
    split at moved
    · obtain rfl := Option.some.inj moved
      exact .inr (.inl ⟨batch, rfl, rfl⟩)
    · cases moved
  | enqueued =>
    obtain rfl := Option.some.inj moved
    refine .inr (.inr ⟨_, true, session.system.events, ?_, ?_, ?_, wired.posted, rfl⟩)
    · split <;> rfl
    · intro _ _ at_
      split at at_ <;> cases at_
    · intro _ at_
      split at at_ <;> cases at_
  | posting =>
    obtain rfl := Option.some.inj moved
    refine .inr (.inr ⟨.ready, session.system.sink.drainScheduled, _, rfl,
      (fun _ _ at_ => by cases at_), (fun _ at_ => by cases at_),
      fun call member => ?_, rfl⟩)
    obtain old | fresh := List.mem_append.mp member
    · exact wired.posted call old
    · exact List.mem_singleton.mp fresh
  | ended => cases moved

/-- The accesses of the worker show and drop no row on screen. -/
theorem Wired.worker (wired : session.Wired) (done : session.step parse .worker = some next) :
    next.Wired ∧ session.Accords next := by
  obtain ⟨batch, cap, at_, paused, rfl⟩ | ⟨batch, at_, rfl⟩ | ⟨worker, drainScheduled, events, same,
    reads, enqueueing, posted, rfl⟩ :=
    worker_cases wired done
  · exact ⟨wired.buffer_ at_ paused, accords_of_same rfl rfl rfl⟩
  · exact ⟨wired.enqueue at_, accords_of_same rfl rfl rfl⟩
  · exact ⟨wired.setWorker same reads enqueueing posted, accords_of_same rfl rfl rfl⟩

/-- `AppendBatch` of rows that are shown then. -/
theorem Wired.appendBatch {batch : StreamedBatch} (wired : session.Wired)
    (kept : (session.owners ++ batch.lines.map LogLine.owner).Sublist session.shown)
    (done : session.appendBatch parse asks batch = some next) :
    next.Wired ∧ session.Accords next := by
  obtain ⟨system, ⟨shown, held⟩, cap, active⟩ := appendBatch_frame done
  -- The model appends the batch and keeps the newest rows.
  have owners : next.owners = (session.owners ++ batch.lines.map LogLine.owner).rtake
      session.model.retentionCap := by
    obtain ⟨model, begun, rfl⟩ := Option.map_eq_some_iff.mp done
    exact LogModel.appendBatch_owners wired.positive begun
  have size : next.owners.length ≤ session.model.retentionCap := by
    rw [owners, length_rtake]
    exact Nat.min_le_left _ _
  have small := wired.small
  have accords := appendBatch_accords wired.positive small wired.rows
    (wired.distinct.sublist kept) done
  refine ⟨?_, accords⟩
  -- The sink has not moved, so the four lists are what they were.
  have received : next.received = session.received := by unfold TailSession.received; rw [system]
  have queued : next.queued = session.queued := by unfold TailSession.queued; rw [system]
  have buffered : next.buffered = session.buffered := by unfold TailSession.buffered; rw [system]
  have inHand : next.inHand = session.inHand := by unfold TailSession.inHand; rw [system]
  constructor
  case rows => omega
  -- What is on the screen is a later part of what was.
  case onScreen =>
    rw [owners, shown]
    exact (List.drop_sublist _ _).trans kept
  case inBuffer => rw [buffered, held]; exact wired.inBuffer
  case accounted => rw [received, shown, queued, held, inHand]; exact wired.accounted
  case numbered => rw [received]; exact wired.numbered
  case bounded => rw [cap]; exact fun _ => size
  case active => rw [active]; exact wired.active
  case running => rw [system, held]; exact wired.running
  case enqueueing => rw [system, held]; exact wired.enqueueing
  all_goals first | rw [system, cap] | rw [system] | rw [cap]
  · exact wired.positive
  · exact wired.small
  · exact wired.cap
  · exact wired.drains
  · exact wired.posted
  · exact wired.buffer
  · exact wired.hand
  · exact wired.reads

/-- `AppendBatch` of what the sink has handed over, if it has. -/
theorem Wired.appendHanded {drained : List SinkBatch} (wired : session.Wired)
    (quiet : session.signals = [])
    (kept : (session.owners ++ drained.flatMap SinkBatch.owners).Sublist session.shown)
    (done : session.appendHanded parse asks (SinkBatch.handedOver drained) = some next) :
    next.Wired ∧ session.Accords next := by
  unfold SinkBatch.handedOver at done
  split at done
  · obtain rfl := Option.some.inj done
    exact ⟨wired, accords_of_same rfl quiet rfl⟩
  · rw [← SinkBatch.owners_coalesce] at kept
    exact wired.appendBatch kept done

/-- The session whose queue has been drained. -/
def drained (session : TailSession) : TailSession :=
  { session.quiet with
    system := { session.system with
      sink := { session.system.sink with pending := [] }
      draining := none
      handed := session.system.handed ++ SinkBatch.handedOver session.system.sink.pending }
    shown := session.shown ++ session.queued }

/-- The session whose paused buffer has been taken. -/
def released (session : TailSession) : TailSession :=
  { session.quiet with
    system := { session.system with
      sink := { session.system.sink with pausedBatches := [], paused := false }
      handed := session.system.handed ++ SinkBatch.handedOver session.system.sink.pausedBatches }
    shown := session.shown ++ session.held
    held := [] }

/-- A drain shows what was in the queue. -/
theorem drainAll_appends (wired : session.Wired)
    (done : session.step parse (.drainAll asks) = some next) :
    session.drained.appendHanded parse asks
      (SinkBatch.handedOver session.system.sink.pending) = some next := by
  obtain ⟨system, moved, appends⟩ := Option.bind_eq_some_iff.mp done
  obtain rfl := SinkSystem.drainAll_eq wired.drains moved
  rwa [List.drop_left] at appends

/-- `Resume` shows what was held while the stream was paused. -/
theorem resume_appends (wired : session.Wired)
    (done : session.step parse (.resume asks) = some next) :
    session.system.sink.paused = false ∧ next = session.quiet ∨
      session.system.sink.paused = true ∧
        session.released.appendHanded parse asks
          (SinkBatch.handedOver session.system.sink.pausedBatches) = some next := by
  simp only [step] at done
  split at done
  · cases done
  · obtain ⟨system, moved, appends⟩ := Option.bind_eq_some_iff.mp done
    -- The handler runs between two drains only.
    simp only [SinkSystem.step] at moved
    split at moved
    · cases moved
    · obtain rfl := Option.some.inj moved
      cases paused : session.system.sink.paused with
      -- The paused buffer is handed over as a whole.
      | true =>
        rw [SinkSystem.resume_eq paused] at appends
        rw [List.drop_left] at appends
        exact .inr ⟨rfl, appends⟩
      -- A sink that runs already has nothing in its buffer.
      | false =>
        have same : session.system.resume = session.system := if_pos paused
        rw [same, List.drop_length, wired.running paused, List.append_nil] at appends
        refine .inl ⟨rfl, (Option.some.inj appends).symm.trans ?_⟩
        have nothing := wired.running paused
        simp [TailSession.quiet, nothing]

/-- Before the rows come, the drained session is wired. -/
theorem Wired.drained (wired : session.Wired) : session.drained.Wired :=
  { wired with
    -- The drain takes the queue over to what has been shown.
    drains := fun _ begun => by cases begun
    onScreen := wired.onScreen.trans (List.sublist_append_left _ _)
    accounted := by
      show session.received.Perm (session.shown ++ session.queued ++ [] ++ session.held ++
        session.inHand)
      rw [List.append_nil]
      exact wired.accounted
    bounded := fun appended => by cases appended }

/-- So is the one that `Resume` has released. -/
theorem Wired.released (wired : session.Wired) : session.released.Wired :=
  { wired with
    buffer := fun _ member => absurd member List.not_mem_nil
    running := fun _ => rfl
    enqueueing := fun _ _ => rfl
    onScreen := wired.onScreen.trans (List.sublist_append_left _ _)
    inBuffer := List.Sublist.refl _
    accounted := by
      show session.received.Perm (session.shown ++ session.held ++ session.queued ++ [] ++
        session.inHand)
      refine wired.accounted.trans (List.Perm.append_right _ ?_)
      -- The rows that were held overtake those in the queue.
      rw [List.append_nil, List.append_assoc, List.append_assoc]
      exact List.perm_append_comm.append_left _
    bounded := fun appended => by cases appended }

/-- What `SetRetentionCap` does apart from the rows. -/
theorem setRetentionCap_frame {cap : Nat} (done : session.setRetentionCap cap = some next) :
    next.system = { session.system with sink := { session.system.sink with retentionCap := cap } } ∧
      (next.model.retentionCap = cap ∧ next.model.streamingActive = session.model.streamingActive) ∧
      (next.shown = session.shown ∧ next.held = session.held) ∧ next.appended = false := by
  obtain ⟨system, moved, rfl⟩ := Option.map_eq_some_iff.mp done
  simp only [SinkSystem.step] at moved
  split at moved
  · cases moved
  · obtain rfl := Option.some.inj moved
    refine ⟨rfl, ?_, ⟨rfl, rfl⟩, rfl⟩
    -- A new cap evicts rows at most, and touches neither the cap of the model nor the stream.
    show (session.model.setRetentionCap _ _).retentionCap = _ ∧
      (session.model.setRetentionCap _ _).streamingActive = _
    unfold LogModel.setRetentionCap
    simp only
    split
    · exact ⟨rfl, rfl⟩
    · split <;> exact ⟨rfl, rfl⟩

/-- `SetRetentionCap` trims the rows on screen, or is about to trim the buffer. -/
theorem Wired.setRetentionCap {cap : RetentionCap} (wired : session.Wired)
    (done : session.setRetentionCap cap.val = some next) : next.Wired ∧ session.Accords next := by
  -- Trimming evicts from the front, so what is on the screen stays in order.
  have accords := setRetentionCap_accords wired.rows (wired.distinct.sublist wired.onScreen) done
  have owners := setRetentionCap_owners done
  obtain ⟨system, ⟨newCap, active⟩, ⟨shown, held⟩, appended⟩ := setRetentionCap_frame done
  have received : next.received = session.received := by unfold TailSession.received; rw [system]
  have queued : next.queued = session.queued := by unfold TailSession.queued; rw [system]
  have buffered : next.buffered = session.buffered := by unfold TailSession.buffered; rw [system]
  have inHand : next.inHand = session.inHand := by unfold TailSession.inHand; rw [system]
  refine ⟨?_, accords⟩
  constructor
  case positive => rw [newCap]; exact cap.property.1
  case small => rw [newCap]; exact cap.property.2
  case cap => rw [system, newCap]
  case active => rw [active]; exact wired.active
  case rows =>
    have rows := wired.rows
    rw [owners, List.length_drop]
    omega
  case onScreen => rw [owners, shown]; exact (List.drop_sublist _ _).trans wired.onScreen
  case inBuffer => rw [buffered, held]; exact wired.inBuffer
  case accounted => rw [received, shown, queued, held, inHand]; exact wired.accounted
  case numbered => rw [received]; exact wired.numbered
  case bounded => exact fun appends => absurd (appended.symm.trans appends) Bool.noConfusion
  case running => rw [system, held]; exact wired.running
  case enqueueing => rw [system, held]; exact wired.enqueueing
  -- The sink itself has not changed.
  all_goals rw [system]
  · exact wired.drains
  · exact wired.posted
  · exact wired.buffer
  · exact wired.hand
  · exact wired.reads

/-- The session whose paused buffer has been trimmed. -/
def trimmed (session : TailSession) (room : Nat) : TailSession :=
  { session.quiet with
    system := { session.system with sink := session.system.sink.trimPausedBufferTo room }
    trimming := none }

/-- What the second part of `SetRetentionCap` does. -/
theorem trim_cases (done : session.step parse .trimPausedBufferTo = some next) :
    ∃ room, session.trimming = some room ∧ next = session.trimmed room := by
  obtain ⟨room, due, stepped⟩ := Option.bind_eq_some_iff.mp done
  -- The trim is due once, for the room that was reckoned.
  obtain ⟨system, moved, rfl⟩ := Option.map_eq_some_iff.mp stepped
  simp only [SinkSystem.step] at moved
  split at moved
  · cases moved
  · obtain rfl := Option.some.inj moved
    exact ⟨room, due, rfl⟩

/-- The buffer after it has been trimmed. -/
theorem Wired.trimmed (wired : session.Wired) (room : Nat) :
    (session.trimmed room).Wired ∧
      (session.trimmed room).buffered = session.buffered.rtake room := by
  obtain ⟨kept, plain⟩ := @trimPausedBufferTo_owners _ room wired.buffer
  refine ⟨{ wired with
    buffer := plain
    inBuffer := ?_
    bounded := fun appended => by cases appended }, kept⟩
  -- What is kept of the buffer is its end.
  show ((session.system.sink.trimPausedBufferTo room).pausedBatches.flatMap
    SinkBatch.owners).Sublist _
  rw [kept]
  exact (List.drop_sublist _ _).trans wired.inBuffer

/-- What a posted drain begins with. -/
theorem Wired.runEvent (wired : session.Wired) (done : session.sinkStep .runEvent = some next) :
    (next.Wired ∧ session.Accords next) ∧ ∃ events draining drainScheduled,
      next = { session.quiet with system := { session.system with
        sink := { session.system.sink with drainScheduled }, events, draining } } := by
  obtain ⟨system, moved, rfl⟩ := Option.map_eq_some_iff.mp done
  simp only [SinkSystem.step] at moved
  split at moved
  · cases moved
  · unfold SinkSystem.runEvent at moved
    split at moved
    · cases moved
    · rename_i generation rest events
      obtain rfl := Option.some.inj moved
      have posted := wired.posted
      rw [events] at posted
      refine ⟨⟨{ wired with
        posted := fun call member => posted call (List.mem_cons_of_mem _ member)
        drains := fun other begun => ?_
        bounded := fun appended => by cases appended }, accords_of_same rfl rfl rfl⟩, rest,
          some generation, false, rfl⟩
      obtain rfl := Option.some.inj begun
      exact PostedCall.drain.inj (posted _ List.mem_cons_self)
    · rename_i generation cancelled rest events
      -- No end of the stream is posted while it is active.
      have posted := wired.posted
      rw [events] at posted
      cases posted _ List.mem_cons_self

/-- `Pause` sets the flag. -/
theorem Wired.pause (wired : session.Wired) (done : session.sinkStep .pause = some next) :
    (next.Wired ∧ session.Accords next) ∧
      next = { session.quiet with
        system := { session.system with sink := { session.system.sink with paused := true } } } := by
  obtain ⟨system, moved, rfl⟩ := Option.map_eq_some_iff.mp done
  -- A pause only sets the flag.
  simp only [SinkSystem.step] at moved
  split at moved
  · cases moved
  · obtain rfl := Option.some.inj moved
    exact ⟨⟨{ wired with
      running := fun running => absurd running Bool.noConfusion
      bounded := fun appended => by cases appended }, accords_of_same rfl rfl rfl⟩, rfl⟩

/-- A step that changes neither the sink nor the rows. -/
theorem Wired.quiet (wired : session.Wired) : session.quiet.Wired :=
  { wired with bounded := fun appended => by cases appended }

/-- A step keeps the tail wired, and unless it edits the anchors, it accords with its rows. -/
theorem step_wired {item : TailStep} (wired : session.Wired)
    (done : session.step parse item = some next) :
    next.Wired ∧ ((∀ anchors, item ≠ .editAnchors anchors) → session.Accords next) := by
  have always {next : TailSession} (both : next.Wired ∧ session.Accords next) :
      next.Wired ∧ ((∀ anchors, item ≠ .editAnchors anchors) → session.Accords next) :=
        ⟨both.1, fun _ => both.2⟩
  cases item with
  | onBatch batch =>
    simp only [step] at done
    split at done
    · rename_i follows
      exact always (wired.onBatch follows done)
    · cases done
  | worker => exact always (wired.worker done)
  | runEvent =>
    simp only [step] at done
    split at done
    · cases done
    · exact always (wired.runEvent done).1
  | drainAll asks =>
    obtain ⟨after, accords⟩ :=
      wired.drained.appendHanded rfl (wired.onScreen.append_right _) (drainAll_appends wired done)
    exact always ⟨after, accords.announced, accords.anchors⟩
  | pause =>
    simp only [step] at done
    split at done
    · cases done
    · exact always (wired.pause done).1
  | resume asks =>
    obtain ⟨-, rfl⟩ | ⟨paused, appends⟩ := resume_appends wired done
    · exact always ⟨wired.quiet, accords_of_same rfl rfl rfl⟩
    · obtain ⟨after, accords⟩ :=
        wired.released.appendHanded rfl (wired.onScreen.append wired.inBuffer) appends
      exact always ⟨after, accords.announced, accords.anchors⟩
  | setRetentionCap cap =>
    simp only [step] at done
    split at done
    · cases done
    · exact always (wired.setRetentionCap done)
  | trimPausedBufferTo =>
    obtain ⟨room, -, rfl⟩ := trim_cases done
    exact always ⟨(wired.trimmed room).1, accords_of_same rfl rfl rfl⟩
  | parserLine source rawLine ownedBytes =>
    -- A stored line is no row yet.
    simp only [step, LogModel.step, LogTable.step, Option.map_some] at done
    obtain rfl := Option.some.inj done
    exact always ⟨{ wired with bounded := fun appended => by cases appended },
      accords_of_same rfl rfl rfl⟩
  | editAnchors anchors =>
    obtain rfl := Option.some.inj done
    exact ⟨{ wired with bounded := fun appended => by cases appended }, fun other =>
      absurd rfl (other anchors)⟩

/-- A step after which the rows that came last are still at hand: a cap is raised only while no row
has been dropped, whatever is trimmed from the paused buffer leaves all of it or as many rows as the
cap allows, and no row that was held overtakes the queue. -/
def KeepsNewest (session : TailSession) : TailStep → Prop
  | .worker =>
    ∀ batch cap, session.system.worker = .buffering batch cap → session.system.sink.paused = true →
    session.model.retentionCap ≤ cap ∨ session.buffered.length + batch.owners.length ≤ cap
  | .resume _ => session.buffered = [] ∨ session.queued = []
  | .setRetentionCap cap => cap.val ≤ session.model.retentionCap ∨
    session.received.length ≤
      session.owners.length + session.queued.length + session.buffered.length +
        session.inHand.length
  | .trimPausedBufferTo => ∀ room, session.trimming = some room → session.buffered.length ≤ room
  | _ => True

/-- The rows came to the screen in order, and those on screen, in the queue and in the buffer end
like all those that came there, as far as the cap reaches. -/
structure Newest (session : TailSession) : Prop where
  ordered : session.received = session.shown ++ session.queued ++ session.held ++ session.inHand
  screen : session.owners.rtake session.model.retentionCap =
    session.shown.rtake session.model.retentionCap
  waiting : (session.owners ++ session.queued ++ session.buffered).rtake
    session.model.retentionCap =
    (session.shown ++ session.queued ++ session.held).rtake session.model.retentionCap
  empty : session.buffered = [] → session.held = []

/-- `AppendBatch` keeps the end of the rows. -/
theorem Newest.appendHanded {drained : List SinkBatch} (positive : 0 < session.model.retentionCap)
    (ordered : session.received = session.shown ++ session.queued ++ session.held ++ session.inHand)
    (screen : (session.owners ++ drained.flatMap SinkBatch.owners).rtake
    session.model.retentionCap =
      session.shown.rtake session.model.retentionCap)
    (waiting : (session.owners ++ drained.flatMap SinkBatch.owners ++ session.queued ++
    session.buffered).rtake
      session.model.retentionCap = (session.shown ++ session.queued ++ session.held).rtake
        session.model.retentionCap)
    (empty : session.buffered = [] → session.held = [])
    (done : session.appendHanded parse asks (SinkBatch.handedOver drained) = some next) :
    next.Newest := by
  unfold SinkBatch.handedOver at done
  split at done
  · rename_i none_
    obtain rfl := Option.some.inj done
    rw [none_, List.flatMap_nil, List.append_nil] at screen waiting
    exact ⟨ordered, screen, waiting, empty⟩
  · rw [← SinkBatch.owners_coalesce] at screen waiting
    replace done : session.appendBatch parse asks (SinkBatch.coalesce drained).toStreamedBatch =
      some next := done
    obtain ⟨system, ⟨shown, held⟩, cap, -⟩ := appendBatch_frame done
    have owners : next.owners =
        (session.owners ++ (SinkBatch.coalesce drained).lines.map LogLine.owner).rtake
          session.model.retentionCap := by
      obtain ⟨model, begun, rfl⟩ := Option.map_eq_some_iff.mp done
      exact LogModel.appendBatch_owners positive begun
    have received : next.received = session.received := by unfold TailSession.received; rw [system]
    have queued : next.queued = session.queued := by unfold TailSession.queued; rw [system]
    have buffered : next.buffered = session.buffered := by unfold TailSession.buffered; rw [system]
    have inHand : next.inHand = session.inHand := by unfold TailSession.inHand; rw [system]
    -- What is cut off the front is not reached from the end.
    have cut : next.owners.rtake session.model.retentionCap =
        (session.owners ++ (SinkBatch.coalesce drained).lines.map LogLine.owner).rtake
          session.model.retentionCap := by
      rw [owners, rtake_rtake, Nat.min_self]
    constructor
    · rw [received, shown, queued, held, inHand]
      exact ordered
    · rw [cap, shown, cut]
      exact screen
    · rw [cap, shown, queued, held, buffered, ← waiting]
      exact rtake_append_congr (rtake_append_congr cut session.queued) session.buffered
    · rw [buffered, held]
      exact empty

/-- The accesses of the worker keep the newest rows at hand. -/
theorem Newest.worker (newest : session.Newest) (wired : session.Wired)
    (keeps : session.KeepsNewest .worker)
    (done : session.step parse .worker = some next) : next.Newest := by
  obtain ⟨batch, cap, at_, paused, rfl⟩ | ⟨batch, at_, rfl⟩ | ⟨worker, drainScheduled, events, same,
    -, -, -, rfl⟩ :=
    worker_cases wired done
  · have hand : session.inHand = batch.owners := by
      unfold inHand
      rw [at_]
      exact List.flatMap_singleton ..
    have single := wired.hand batch (by rw [at_]; exact List.mem_singleton_self batch)
    have positive := wired.reads batch cap at_
    have buffered : (session.system.sink.bufferPaused batch cap).pausedBatches.flatMap
      SinkBatch.owners =
        (session.buffered ++ batch.owners).rtake cap :=
          (bufferPaused_owners positive wired.buffer single).1
    constructor
    · show session.received = session.shown ++ session.queued ++ (session.held ++ batch.owners) ++
        []
      rw [newest.ordered, hand, List.append_nil, ← List.append_assoc]
    · exact newest.screen
    · show (session.owners ++ session.queued ++
        (session.system.sink.bufferPaused batch cap).pausedBatches.flatMap SinkBatch.owners).rtake
          session.model.retentionCap =
          (session.shown ++ session.queued ++ (session.held ++ batch.owners)).rtake
            session.model.retentionCap
      have kept : (session.owners ++ session.queued ++ (session.buffered ++ batch.owners).rtake
        cap).rtake session.model.retentionCap =
          (session.owners ++ session.queued ++ (session.buffered ++ batch.owners)).rtake
            session.model.retentionCap := by
        obtain reaches | fits := keeps batch cap at_ paused
        · exact rtake_append_rtake _ _ reaches
        · have all : (session.buffered ++ batch.owners).rtake cap = session.buffered ++
              batch.owners :=
            rtake_of_length_le (by rwa [List.length_append])
          rw [all]
      rw [buffered, kept, ← List.append_assoc, ← List.append_assoc]
      exact rtake_append_congr newest.waiting batch.owners
    · show (session.system.sink.bufferPaused batch cap).pausedBatches.flatMap SinkBatch.owners =
        [] → session.held ++ batch.owners = []
      intro none_
      have size := congrArg List.length (buffered.symm.trans none_)
      rw [length_rtake, List.length_append, List.length_nil] at size
      -- The cap leaves at least one row, so there was none.
      rw [newest.empty (List.length_eq_zero_iff.mp (by omega)), List.nil_append]
      exact List.length_eq_zero_iff.mp (by omega)
  · have hand : session.inHand = batch.owners := by
      unfold inHand
      rw [at_]
      exact List.flatMap_singleton ..
    have nothing := wired.enqueueing batch at_
    have buffered : session.buffered = [] := List.sublist_nil.mp (nothing ▸ wired.inBuffer)
    have queued := SinkBatch.flatMap_owners_concat session.system.sink.pending batch
    have waiting := newest.waiting
    rw [nothing, buffered, List.append_nil, List.append_nil] at waiting
    constructor
    · show session.received = session.shown ++ (session.system.sink.pending ++ [batch]).flatMap
        SinkBatch.owners ++
        (session.held ++ []) ++ []
      rw [newest.ordered, hand, queued, nothing, List.append_nil, List.append_nil, List.append_nil,
        List.append_nil,
        ← List.append_assoc]
      rfl
    · exact newest.screen
    · show (session.owners ++ (session.system.sink.pending ++ [batch]).flatMap SinkBatch.owners ++
        session.buffered).rtake
        session.model.retentionCap =
          (session.shown ++ (session.system.sink.pending ++ [batch]).flatMap SinkBatch.owners ++
          (session.held ++ [])).rtake session.model.retentionCap
      rw [queued, buffered, nothing, List.append_nil, List.append_nil, List.append_nil,
        ← List.append_assoc, ← List.append_assoc]
      exact rtake_append_congr waiting batch.owners
    · show session.buffered = [] → session.held ++ [] = []
      rw [List.append_nil]
      exact newest.empty
  · have hand : ({ session.quiet with system := { session.system with worker } } :
        TailSession).inHand = session.inHand :=
      congrArg (List.flatMap SinkBatch.owners) same
    rw [List.append_nil]
    exact ⟨hand ▸ newest.ordered, newest.screen, newest.waiting, newest.empty⟩

/-- `SetRetentionCap` keeps the newest rows at hand. -/
theorem Newest.setRetentionCap {cap : RetentionCap} (newest : session.Newest)
    (wired : session.Wired)
    (keeps : session.KeepsNewest (.setRetentionCap cap))
    (done : session.setRetentionCap cap.val = some next) : next.Newest := by
  have after := setRetentionCap_owners done
  obtain ⟨system, ⟨newCap, -⟩, ⟨shown, held⟩, -⟩ := setRetentionCap_frame done
  have received : next.received = session.received := by unfold TailSession.received; rw [system]
  have queued : next.queued = session.queued := by unfold TailSession.queued; rw [system]
  have buffered : next.buffered = session.buffered := by unfold TailSession.buffered; rw [system]
  have inHand : next.inHand = session.inHand := by unfold TailSession.inHand; rw [system]
  -- Under the new cap the rows already ended like those that came.
  have under : session.owners.rtake cap.val = session.shown.rtake cap.val ∧
      (session.owners ++ session.queued ++ session.buffered).rtake cap.val =
        (session.shown ++ session.queued ++ session.held).rtake cap.val := by
    obtain lower | whole := keeps
    · exact ⟨rtake_congr_le lower newest.screen, rtake_congr_le lower newest.waiting⟩
    · have size := congrArg List.length newest.ordered
      simp only [List.length_append] at size
      have fewer := wired.onScreen.length_le
      have fewerToo := wired.inBuffer.length_le
      rw [wired.onScreen.eq_of_length_le (by omega), wired.inBuffer.eq_of_length_le (by omega)]
      exact ⟨rfl, rfl⟩
  have counted : session.owners.length = session.model.table.rowCount := List.length_map _
  have positive := cap.property.1
  have end_ : next.owners.rtake cap.val = session.owners.rtake cap.val := by
    rw [after]
    simp only [LogModel.trimCount, wired.active]
    cases session.system.sink.paused with
    | true => rw [if_pos (by simp), List.drop_zero]
    | false =>
      rw [if_neg (by simp only [Bool.true_eq_false, or_false, Bool.false_eq_true]; omega),
        ← counted]
      -- The rows on screen are trimmed to their end.
      show (session.owners.rtake cap.val).rtake cap.val = _
      rw [rtake_rtake, Nat.min_self]
  constructor
  · rw [received, shown, queued, held, inHand]
    exact newest.ordered
  · rw [newCap, shown, end_]
    exact under.1
  · rw [newCap, shown, queued, held, buffered, ← under.2]
    exact rtake_append_congr (rtake_append_congr end_ session.queued) session.buffered
  · rw [buffered, held]
    exact newest.empty

/-- A step that keeps the newest rows keeps the end of the rows. -/
theorem step_newest {item : TailStep} (wired : session.Wired) (newest : session.Newest)
    (keeps : session.KeepsNewest item)
    (done : session.step parse item = some next) : next.Newest := by
  cases item with
  | onBatch batch =>
    simp only [step] at done
    split at done
    · obtain ⟨system, begun, rfl⟩ := Option.map_eq_some_iff.mp done
      simp only [SinkSystem.step] at begun
      split at begun
      · rename_i ready
        obtain rfl := Option.some.inj begun
        have empty : session.inHand = [] := by
          unfold inHand
          rw [ready]
          rfl
        have ordered := newest.ordered
        rw [empty, List.append_nil] at ordered
        refine ⟨?_, newest.screen, newest.waiting, newest.empty⟩
        show (session.system.received ++ [batch]).flatMap SinkBatch.owners =
          session.shown ++ session.queued ++ session.held ++ [batch].flatMap SinkBatch.owners
        rw [SinkBatch.flatMap_owners_concat, List.flatMap_singleton, ← ordered]
        rfl
      · cases begun
    · cases done
  | worker => exact newest.worker wired keeps done
  | runEvent =>
    simp only [step] at done
    split at done
    · cases done
    · obtain ⟨-, events, draining, drainScheduled, rfl⟩ := wired.runEvent done
      exact ⟨newest.ordered, newest.screen, newest.waiting, newest.empty⟩
  | drainAll asks =>
    refine @Newest.appendHanded session.drained _ _ _ _ wired.positive ?_ ?_ ?_ newest.empty
      (drainAll_appends wired done)
    · show session.received = session.shown ++ session.queued ++ [] ++ session.held ++
        session.inHand
      rw [List.append_nil]
      exact newest.ordered
    · exact rtake_append_congr newest.screen session.queued
    · show (session.owners ++ session.queued ++ [] ++ session.buffered).rtake
        session.model.retentionCap =
        (session.shown ++ session.queued ++ [] ++ session.held).rtake session.model.retentionCap
      rw [List.append_nil, List.append_nil]
      exact newest.waiting
  | pause =>
    simp only [step] at done
    split at done
    · cases done
    · obtain ⟨-, rfl⟩ := wired.pause done
      exact ⟨newest.ordered, newest.screen, newest.waiting, newest.empty⟩
  | resume asks =>
    obtain ⟨-, rfl⟩ | ⟨-, appends⟩ := resume_appends wired done
    · exact ⟨newest.ordered, newest.screen, newest.waiting, newest.empty⟩
    · -- Nothing is held, or nothing is in the queue for it to overtake.
      have apart : session.held = [] ∨ session.queued = [] := keeps.imp_left newest.empty
      have screen : (session.owners ++ session.buffered).rtake session.model.retentionCap =
          (session.shown ++ session.held).rtake session.model.retentionCap := by
        obtain nothing | drained := apart
        · have buffered : session.buffered = [] := List.sublist_nil.mp (nothing ▸ wired.inBuffer)
          rw [nothing, buffered, List.append_nil, List.append_nil]
          exact newest.screen
        · have waiting := newest.waiting
          rw [drained, List.append_nil, List.append_nil] at waiting
          exact waiting
      refine @Newest.appendHanded session.released _ _ _ _ wired.positive ?_ screen ?_ (fun _ =>
        rfl) appends
      · show session.received = session.shown ++ session.held ++ session.queued ++ [] ++
          session.inHand
        rw [newest.ordered]
        obtain nothing | drained := apart
        · rw [nothing, List.append_nil, List.append_nil, List.append_nil]
        · rw [drained, List.append_nil, List.append_nil, List.append_nil]
      · show (session.owners ++ session.buffered ++ session.queued ++ []).rtake
          session.model.retentionCap =
          (session.shown ++ session.held ++ session.queued ++ []).rtake session.model.retentionCap
        rw [List.append_nil, List.append_nil]
        exact rtake_append_congr screen session.queued
  | setRetentionCap cap =>
    simp only [step] at done
    split at done
    · cases done
    · exact newest.setRetentionCap wired keeps done
  | trimPausedBufferTo =>
    obtain ⟨room, due, rfl⟩ := trim_cases done
    have kept := (wired.trimmed room).2
    rw [rtake_of_length_le (keeps room due)] at kept
    refine ⟨newest.ordered, newest.screen, ?_, kept ▸ newest.empty⟩
    show (session.owners ++ session.queued ++ (session.trimmed room).buffered).rtake
      session.model.retentionCap = _
    rw [kept]
    exact newest.waiting
  | parserLine source rawLine ownedBytes =>
    simp only [step, LogModel.step, LogTable.step, Option.map_some] at done
    obtain rfl := Option.some.inj done
    exact ⟨newest.ordered, newest.screen, newest.waiting, newest.empty⟩
  | editAnchors anchors =>
    obtain rfl := Option.some.inj done
    exact ⟨newest.ordered, newest.screen, newest.waiting, newest.empty⟩

/-- A live tail begins without rows. -/
theorem start_wired (model : LogModel) (stream : StreamLineSource) (cap : RetentionCap)
    (capacity : Nat)
    (locators : Nat → Bytes) (anchors : AnchorManager) :
    (start model stream cap capacity locators anchors).Wired ∧
      (start model stream cap capacity locators anchors).Newest := by
  -- The new stream has no rows yet.
  have rows : (start model stream cap capacity locators anchors).owners = [] :=
    (LogTable.rowFrame_beginStreaming model.table (some (.stream stream))).owners
  refine ⟨?_, ?_⟩
  · -- The model, the cap and the sink begin together, and nothing has been received.
    constructor
    case positive => exact cap.property.1
    case small => exact cap.property.2
    case cap => rfl
    case active => rfl
    case rows => rw [rows]; exact Nat.two_pow_pos 30
    case drains => exact fun _ begun => by cases begun
    case posted => exact fun _ member => absurd member List.not_mem_nil
    case buffer => exact fun _ member => absurd member List.not_mem_nil
    case hand => exact fun _ member => absurd member List.not_mem_nil
    case reads => exact fun _ _ at_ => by cases at_
    case running => exact fun _ => rfl
    case enqueueing => exact fun _ _ => rfl
    case onScreen => rw [rows]; exact List.nil_sublist _
    case inBuffer => exact List.Sublist.refl _
    case accounted => exact List.Perm.refl _
    case numbered => exact .nil
    case bounded => exact fun appended => by cases appended
  · constructor
    · rfl
    · rw [rows]
      rfl
    · rw [rows]
      rfl
    · exact fun _ => rfl

/-- For every run of a live tail: after `AppendBatch` the table has at most as many rows as the cap
allows; if no step has let go of the newest rows, every row received is shown, in the queue, held
while the stream is paused or in the hands of the worker, in this order, and the table has the last
of the rows shown; and each step announces the ranges by which the rows change, and removes the
anchors of the rows that are gone and no others. -/
theorem run_retainsLastRows {model : LogModel} {stream : StreamLineSource} {cap : RetentionCap}
    {capacity : Nat}
    {locators : Nat → Bytes} {anchors : AnchorManager} {steps : List TailStep}
    (done : steps.foldlM (step parse) (start model stream cap capacity locators anchors) =
    some session) :
    (session.appended = true → session.owners.length ≤ session.model.retentionCap) ∧
      (CleanRun (step parse) KeepsNewest (start model stream cap capacity locators anchors) steps →
        session.received = session.shown ++ session.queued ++ session.held ++ session.inHand ∧
          (session.system.sink.paused = false → session.held = []) ∧
          (session.appended = true →
            session.owners = session.shown.rtake session.model.retentionCap)) ∧
      ∀ item next, session.step parse item = some next → (∀ anchors, item ≠ .editAnchors anchors) →
        session.Accords next := by
  obtain ⟨begun, newest⟩ := start_wired model stream cap capacity locators anchors
  have wired : session.Wired :=
    foldlM_invariant (fun _ _ _ wired stepped => (step_wired wired stepped).1) begun done
  refine ⟨wired.bounded, fun clean => ?_, fun item next stepped other =>
    (step_wired wired stepped).2 other⟩
  have preserves : ∀ session item next, (Wired session ∧ Newest session) →
    session.KeepsNewest item →
      session.step parse item = some next → next.Wired ∧ next.Newest :=
    fun session item next holds keeps stepped =>
      ⟨(step_wired holds.1 stepped).1, step_newest holds.1 holds.2 keeps stepped⟩
  have final := (clean.invariant (fun session => session.Wired ∧ session.Newest) preserves ⟨begun,
    newest⟩ done).2
  refine ⟨final.ordered, wired.running, fun appended => ?_⟩
  -- The table is no longer than its own end.
  rw [← final.screen, rtake_of_length_le (wired.bounded appended)]

end Runs

/-- Rows of a stream by their numbers. -/
def numberedBatch (lineIds : List Nat) : SinkBatch :=
  { SinkBatch.empty with lines := lineIds.map fun lineId => ⟨.empty, 0, lineId⟩ }

/-- A live tail under a cap. -/
def tail (cap : RetentionCap) : TailSession :=
  start (.ofConfiguration ⟨[], ⟨-1, false⟩⟩) .empty cap 1 (fun _ => []) .empty

/-- The stream is paused, a batch above the cap arrives, and the stream is resumed. -/
def pausedSteps : List TailStep :=
  [.pause, .onBatch (numberedBatch [1, 2, 3]), .worker, .worker, .worker, .resume fun _ => false]

/-- The last two rows stay. -/
theorem pausedSteps_retain : ∃ session,
    pausedSteps.foldlM (step fun _ _ => none) (tail ⟨2, by decide⟩) = some session ∧
      session.owners = [(0, 2), (0, 3)] ∧
        session.owners = session.shown.rtake session.model.retentionCap := by
  have clean : CleanRun (step fun _ _ => none) KeepsNewest (tail ⟨2, by decide⟩) pausedSteps := by
    refine ⟨trivial, fun _ paused => ⟨trivial, fun _ begun => ?_⟩⟩
    obtain rfl := Option.some.inj paused
    obtain rfl := Option.some.inj begun
    refine ⟨fun _ _ at_ => (by cases at_), fun _ first => ?_⟩
    obtain rfl := Option.some.inj first
    refine ⟨fun _ _ at_ => (by cases at_), fun _ second => ?_⟩
    obtain rfl := Option.some.inj second
    refine ⟨fun batch cap at_ _ => ?_, fun _ third => ⟨?_, fun _ _ => trivial⟩⟩
    · -- The cap that the worker has read is the one in force.
      obtain ⟨-, rfl⟩ := SinkWorker.buffering.inj at_
      exact .inl le_rfl
    · obtain rfl := Option.some.inj third
      exact .inr rfl
  exact ⟨_, rfl, rfl, ((run_retainsLastRows rfl).2.1 clean).2.2 rfl⟩

/-- A batch goes through the queue to the screen. -/
def delivery (lineIds : List Nat) : List TailStep :=
  [.onBatch (numberedBatch lineIds), .worker, .worker, .worker, .worker, .runEvent,
    .drainAll fun _ => false]

/-- The cap is raised after a row was dropped. -/
def raisedSteps : List TailStep :=
  delivery [1, 2] ++ .setRetentionCap ⟨3, by decide⟩ :: delivery [3]

/-- The cap is set to what it is while the stream is paused. -/
def setAgainSteps : List TailStep :=
  delivery [1] ++ [.pause, .onBatch (numberedBatch [2, 3]), .worker, .worker, .worker,
    .setRetentionCap ⟨2, by decide⟩, .trimPausedBufferTo, .resume fun _ => false]

/-- One batch waits in the queue, another one in the paused buffer, and the stream is resumed. -/
def overtakingSteps : List TailStep :=
  [.onBatch (numberedBatch [1]), .worker, .worker, .worker, .worker, .pause,
    .onBatch (numberedBatch [2]), .worker, .worker,
    .worker, .resume fun _ => false, .runEvent, .drainAll fun _ => false]

/-- The cap is raised between two accesses of the worker. -/
def oldCapSteps : List TailStep :=
  [.pause, .onBatch (numberedBatch [1, 2]), .worker, .worker, .setRetentionCap ⟨3, by decide⟩,
    .trimPausedBufferTo, .worker,
    .resume fun _ => false]

/-- None lowers the cap, and all end with rows that are not the last ones of those received, which
have all been shown: three rows would fit, and two remain; the first row outlives the second; the
first row outlives the second again; and two rows would fit, and one remains. -/
theorem cappedTails_lose_rows :
    (∃ session, raisedSteps.foldlM (step fun _ _ => none) (tail ⟨1, by decide⟩) = some session ∧
      session.appended = true ∧ session.owners = [(0, 2), (0, 3)] ∧
      session.received.rtake session.model.retentionCap = [(0, 1), (0, 2), (0, 3)]) ∧
    (∃ session, setAgainSteps.foldlM (step fun _ _ => none) (tail ⟨2, by decide⟩) = some session ∧
      session.appended = true ∧ session.owners = [(0, 1), (0, 3)] ∧
      session.received.rtake session.model.retentionCap = [(0, 2), (0, 3)]) ∧
    (∃ session, overtakingSteps.foldlM (step fun _ _ => none) (tail ⟨1, by decide⟩) = some session ∧
      session.appended = true ∧ session.owners = [(0, 1)] ∧
      session.received.rtake session.model.retentionCap = [(0, 2)]) ∧
    ∃ session, oldCapSteps.foldlM (step fun _ _ => none) (tail ⟨1, by decide⟩) = some session ∧
      session.appended = true ∧ session.owners = [(0, 2)] ∧
      session.received.rtake session.model.retentionCap = [(0, 1), (0, 2)] :=
  ⟨⟨_, rfl, rfl, rfl, rfl⟩, ⟨_, rfl, rfl, rfl, rfl⟩, ⟨_, rfl, rfl, rfl, rfl⟩, _, rfl, rfl, rfl, rfl⟩

end TailSession

end Loglib
