import Loglib.Pipeline.ChunkIndependence
import Loglib.Pipeline.LineBytesQueue

/-! The end of a stream: a worker that appends its last bytes and closes while the loop
asks for them. -/

namespace Loglib

/-- `STREAMING_READ_BUFFER_SIZE`. -/
def streamingReadBufferSize : Nat := 64 * 1024

/-- The producers whose worker fills a `LineBytesQueue`. -/
inductive ProducerKind where
  | stdin
  | tcpServer
deriving DecidableEq, Repr

/-- Where `RunStreamingParseLoop` is. Other threads may act between any two of its calls. -/
inductive LoopPhase where
  /-- `Read` is called next. -/
  | reading
  /-- `Read` gave nothing, and `IsClosed` is called next. -/
  | checkingClosed
  /-- Inside `IsClosed` of the TCP producer: the worker has exited, and the queue is
  looked at next. -/
  | checkingQueue
  | reachedEof
deriving DecidableEq, Repr

/-- A producer and the loop that reads from it. -/
structure StreamHandover where
  kind : ProducerKind
  /-- `queueCapBytes` or `maxQueueBytes`. -/
  cap : Nat
  queue : LineBytesQueue
  /-- `mClosed` of the stdin producer, `mWorkerExited` of the TCP producer. -/
  closed : Bool
  phase : LoopPhase
  /-- The turns that the loop has taken. -/
  turns : List LoopEvent
  /-- All bytes that the worker has appended. -/
  appended : Bytes

/-- What happens next: a step of the worker or one of the loop. -/
inductive HandoverStep where
  | append (data : Bytes)
  | close
  | loop (agedOut : Bool) (timing : FlushTiming)

namespace StreamHandover

/-- The worker has not appended anything, and the loop calls `Read` first. -/
def start (kind : ProducerKind) (cap : Nat) : StreamHandover :=
  ⟨kind, cap, .empty, false, .reading, [], []⟩

/-- The bytes the loop has consumed. -/
def consumed (handover : StreamHandover) : Bytes := readBytes handover.turns

/-- The loop's branch for a quiet producer, up to the next `Read`. `WaitForBytes` may
return at any time. -/
def waitForBytes (handover : StreamHandover) (agedOut : Bool) (timing : FlushTiming) :
    StreamHandover :=
  { handover with phase := .reading, turns := handover.turns ++ [.idle agedOut timing] }

/-- The next call of the loop on the producer. -/
def loopStep (handover : StreamHandover) (agedOut : Bool) (timing : FlushTiming) :
    Option StreamHandover :=
  match handover.phase with
  | .reading =>
    let (copied, queue) := handover.queue.read streamingReadBufferSize
    if copied = [] then some { handover with phase := .checkingClosed }
    else some { handover with queue, turns := handover.turns ++ [.read copied timing] }
  | .checkingClosed =>
    if handover.closed = false then some (handover.waitForBytes agedOut timing)
    else
      match handover.kind with
      | .stdin => some { handover with phase := .reachedEof }
      | .tcpServer => some { handover with phase := .checkingQueue }
  | .checkingQueue =>
    if handover.queue.size = 0 then some { handover with phase := .reachedEof }
    else some (handover.waitForBytes agedOut timing)
  | .reachedEof => none

/-- One step. The worker does nothing after it has closed. -/
def step (handover : StreamHandover) : HandoverStep → Option StreamHandover
  | .append data =>
    if handover.closed then none
    else
      some
        { handover with
          queue := (handover.queue.append data handover.cap).1
          appended := handover.appended ++ data }
  | .close => if handover.closed then none else some { handover with closed := true }
  | .loop agedOut timing => handover.loopStep agedOut timing

/-- An append stays within the cap. -/
def FitsCap (handover : StreamHandover) : HandoverStep → Prop
  | .append data => handover.cap = 0 ∨ handover.queue.size + data.length ≤ handover.cap
  | _ => True

/-- The worker of the stdin producer does not close between an empty `Read` and the `IsClosed` that
follows it when it has appended something in the meantime. -/
def ClosesSafely (handover : StreamHandover) : HandoverStep → Prop
  | .close => handover.kind = .stdin → handover.phase = .checkingClosed → handover.queue.bytes = []
  | _ => True

/-- What can become of the bytes while the cap is not reached. -/
structure Sound (handover : StreamHandover) : Prop where
  nothingLost : handover.consumed ++ handover.queue.bytes = handover.appended
  exited : handover.phase = .checkingQueue → handover.closed = true
  drained : handover.phase = .reachedEof → handover.kind = .tcpServer → handover.queue.bytes = []
  ended : handover.phase = .reachedEof → handover.closed = true

/-- The stdin producer is closed with bytes in its queue that the loop will not ask for. -/
structure Stranded (handover : StreamHandover) : Prop where
  kind : handover.kind = .stdin
  closed : handover.closed = true
  queued : handover.queue.bytes ≠ []
  phase : handover.phase = .checkingClosed ∨ handover.phase = .reachedEof

/-- Reading an empty queue gives nothing, and reading any other gives something. -/
theorem read_eq_nil {queue : LineBytesQueue} :
    (queue.read streamingReadBufferSize).1 = [] ↔ queue.bytes = [] := by
  simp [LineBytesQueue.read, LineBytesQueue.size, streamingReadBufferSize]

/-- What is read and what stays are the queue. -/
theorem read_append (queue : LineBytesQueue) (bufferSize : Nat) :
    (queue.read bufferSize).1 ++ (queue.read bufferSize).2.bytes = queue.bytes := by
  simp [LineBytesQueue.read]

/-- An append within the cap drops nothing. -/
theorem append_bytes {queue : LineBytesQueue} {data : Bytes} {cap : Nat}
    (fits : cap = 0 ∨ queue.size + data.length ≤ cap) :
    (queue.append data cap).1.bytes = queue.bytes ++ data := by
  -- Data that fits makes nothing overflow.
  have nothing : queue.overflow data.length cap = 0 := by
    unfold LineBytesQueue.overflow
    split
    · rfl
    · rw [if_neg]
      omega
  simp [LineBytesQueue.append, nothing]

/-- What one call of the loop can do. -/
theorem loopStep_cases {handover next : StreamHandover} {agedOut : Bool} {timing : FlushTiming}
    (called : handover.loopStep agedOut timing = some next) :
    (handover.phase = .reading ∧ handover.queue.bytes = [] ∧
      next = { handover with phase := .checkingClosed }) ∨
    (handover.phase = .reading ∧
      next = { handover with
        queue := (handover.queue.read streamingReadBufferSize).2
        turns := handover.turns ++
          [.read (handover.queue.read streamingReadBufferSize).1 timing] }) ∨
    (handover.phase = .checkingClosed ∧ handover.closed = false ∧
      next = handover.waitForBytes agedOut timing) ∨
    (handover.phase = .checkingClosed ∧ handover.closed = true ∧ handover.kind = .stdin ∧
      next = { handover with phase := .reachedEof }) ∨
    (handover.phase = .checkingClosed ∧ handover.closed = true ∧ handover.kind = .tcpServer ∧
      next = { handover with phase := .checkingQueue }) ∨
    (handover.phase = .checkingQueue ∧ handover.queue.bytes = [] ∧
      next = { handover with phase := .reachedEof }) ∨
    (handover.phase = .checkingQueue ∧ next = handover.waitForBytes agedOut timing) := by
  -- One case for each phase of the loop, and for what it reads there.
  unfold loopStep at called
  cases phase : handover.phase with
  | reading =>
    simp only [phase] at called
    split at called
    · rename_i nothing
      exact .inl ⟨rfl, read_eq_nil.mp nothing, (Option.some.inj called).symm⟩
    · exact .inr (.inl ⟨rfl, (Option.some.inj called).symm⟩)
  -- The flag is read behind an empty queue. Standard input ends here, and the TCP producer looks
  -- again.
  | checkingClosed =>
    simp only [phase] at called
    split at called
    · rename_i opened
      exact .inr (.inr (.inl ⟨rfl, opened, (Option.some.inj called).symm⟩))
    · rename_i shut
      have closed : handover.closed = true := by simpa using shut
      cases kind : handover.kind with
      | stdin =>
        simp only [kind] at called
        exact .inr (.inr (.inr (.inl ⟨rfl, closed, rfl, (Option.some.inj called).symm⟩)))
      | tcpServer =>
        simp only [kind] at called
        exact .inr (.inr (.inr (.inr (.inl ⟨rfl, closed, rfl, (Option.some.inj called).symm⟩))))
  -- The second look at the queue.
  | checkingQueue =>
    simp only [phase] at called
    split at called
    · rename_i drained
      have nothing : handover.queue.bytes = [] := List.length_eq_zero_iff.mp drained
      exact .inr (.inr (.inr (.inr (.inr (.inl ⟨rfl, nothing, (Option.some.inj called).symm⟩)))))
    · exact .inr (.inr (.inr (.inr (.inr (.inr ⟨rfl, (Option.some.inj called).symm⟩)))))
  | reachedEof => simp [phase] at called

/-- A step within the cap loses nothing from the queue. -/
theorem step_sound {handover next : StreamHandover} {item : HandoverStep} (sound : handover.Sound)
    (fits : handover.FitsCap item) (done : handover.step item = some next) : next.Sound := by
  cases item with
  | append data =>
    simp only [step] at done
    split at done
    · cases done
    · rename_i opened
      obtain rfl := Option.some.inj done
      -- An open producer has not come to its end.
      refine ⟨?_, sound.exited, fun phase => absurd (sound.ended phase) opened,
        fun phase => absurd (sound.ended phase) opened⟩
      have kept := sound.nothingLost
      simp only [consumed] at kept ⊢
      rw [append_bytes fits, ← List.append_assoc, kept]
  | close =>
    simp only [step] at done
    split at done
    · cases done
    · obtain rfl := Option.some.inj done
      exact ⟨sound.nothingLost, fun _ => rfl, sound.drained, fun _ => rfl⟩
  | loop agedOut timing =>
    have kept := sound.nothingLost
    obtain ⟨_, _, rfl⟩ | ⟨phase, rfl⟩ | ⟨_, _, rfl⟩ | ⟨_, closed, kind, rfl⟩ | ⟨_, closed, _, rfl⟩ |
      ⟨phase, drained, rfl⟩ | ⟨_, rfl⟩ := loopStep_cases done
    · exact ⟨kept, by simp, by simp, by simp⟩
    · -- The bytes that are read leave the queue at its front.
      refine ⟨?_, by simp [phase], by simp [phase], by simp [phase]⟩
      simp only [consumed, readBytes, List.flatMap_append, List.flatMap_singleton, LoopEvent.text,
        List.append_assoc, read_append] at kept ⊢
      exact kept
    · exact ⟨by simpa [waitForBytes, consumed, readBytes, LoopEvent.text] using kept, by simp [waitForBytes],
        by simp [waitForBytes], by simp [waitForBytes]⟩
    · exact ⟨kept, by simp, fun _ tcp => by simp [kind] at tcp, fun _ => closed⟩
    · exact ⟨kept, fun _ => closed, by simp, by simp⟩
    · exact ⟨kept, by simp, fun _ _ => drained, fun _ => sound.exited phase⟩
    · exact ⟨by simpa [waitForBytes, consumed, readBytes, LoopEvent.text] using kept, by simp [waitForBytes],
        by simp [waitForBytes], by simp [waitForBytes]⟩

/-- Bytes that are stranded stay stranded: the next call of the loop is `IsClosed`, and it
ends the loop. -/
theorem Stranded.step {handover next : StreamHandover} {item : HandoverStep}
    (stranded : handover.Stranded)
    (done : handover.step item = some next) : next.Stranded := by
  obtain ⟨kind, closed, queued, phase⟩ := stranded
  -- No more bytes come, and the flag is set already.
  cases item with
  | append data => simp [StreamHandover.step, closed] at done
  | close => simp [StreamHandover.step, closed] at done
  -- The loop that has seen an empty queue goes to its end, past the bytes.
  | loop agedOut timing =>
    obtain ⟨is, _⟩ | ⟨is, _⟩ | ⟨_, opened, _⟩ | ⟨_, _, _, rfl⟩ | ⟨_, _, tcp, _⟩ |
      ⟨is, _⟩ | ⟨is, _⟩ := loopStep_cases done
    · simp [is] at phase
    · simp [is] at phase
    · simp [closed] at opened
    · exact ⟨kind, closed, queued, .inr rfl⟩
    · simp [kind] at tcp
    · simp [is] at phase
    · simp [is] at phase

/-- A close between an empty `Read` and its `IsClosed` strands what has been appended in between. -/
theorem close_stranded {handover next : StreamHandover} (kind : handover.kind = .stdin)
    (phase : handover.phase = .checkingClosed) (queued : handover.queue.bytes ≠ [])
    (done : handover.step .close = some next) : next.Stranded := by
  simp only [StreamHandover.step] at done
  split at done
  · cases done
  · obtain rfl := Option.some.inj done
    exact ⟨kind, rfl, queued, .inl phase⟩

/-- A step that is safe does not strand bytes. -/
theorem step_not_stranded {handover next : StreamHandover} {item : HandoverStep}
    (sound : handover.Sound) (free : ¬handover.Stranded) (safe : handover.ClosesSafely item)
    (done : handover.step item = some next) :
    ¬next.Stranded := by
  rintro ⟨kind, closed, queued, phase⟩
  cases item with
  | append data =>
    -- Bytes are accepted only before the flag.
    simp only [StreamHandover.step] at done
    split at done
    · cases done
    · rename_i opened
      obtain rfl := Option.some.inj done
      exact opened closed
  | close =>
    -- The flag is set while the queue is empty, or before the loop has seen it so.
    simp only [StreamHandover.step] at done
    split at done
    · cases done
    · rename_i opened
      obtain rfl := Option.some.inj done
      obtain checking | ended := phase
      · exact queued (safe kind checking)
      · exact opened (sound.ended ended)
  -- The loop leaves bytes behind only between its two looks, and there standard input has nothing
  -- new.
  | loop agedOut timing =>
    obtain ⟨_, nothing, rfl⟩ | ⟨is, rfl⟩ | ⟨_, _, rfl⟩ | ⟨is, shut, _, rfl⟩ | ⟨_, _, tcp, rfl⟩ |
      ⟨is, nothing, rfl⟩ | ⟨is, rfl⟩ := loopStep_cases done
    · exact queued nothing
    · simp [is] at phase
    · simp [waitForBytes] at phase
    · exact free ⟨kind, shut, queued, .inl is⟩
    · exact absurd (tcp.symm.trans kind) (by decide)
    · exact queued nothing
    · simp [waitForBytes] at phase

/-- Before the first step nothing is lost and nothing is stranded. -/
theorem start_sound (kind : ProducerKind) (cap : Nat) : (start kind cap).Sound :=
  ⟨rfl, by simp [start], by simp [start], by simp [start]⟩

/-- A run within the cap loses nothing from the queue. -/
theorem run_sound {handover final : StreamHandover} {steps : List HandoverStep}
    (sound : handover.Sound)
    (fits : CleanRun step FitsCap handover steps) (done : steps.foldlM step handover = some final) :
    final.Sound :=
  fits.invariant Sound (fun _ _ _ sound fits => step_sound sound fits) sound done

/-- Stranded bytes are still stranded at the end of a run. -/
theorem Stranded.run {handover final : StreamHandover} {steps : List HandoverStep}
    (stranded : handover.Stranded) (done : steps.foldlM StreamHandover.step handover = some final) :
    final.Stranded :=
  foldlM_invariant (fun _ _ _ stranded => stranded.step) stranded done

/-- A run strands bytes if and only if one of its steps is a close at the wrong moment. -/
theorem run_not_stranded_iff {handover final : StreamHandover} {steps : List HandoverStep}
    (sound : handover.Sound) (free : ¬handover.Stranded)
    (fits : CleanRun step FitsCap handover steps)
    (done : steps.foldlM step handover = some final) :
    ¬final.Stranded ↔ CleanRun step ClosesSafely handover steps := by
  -- The induction is on the steps: a step either is safe or strands bytes for good.
  induction steps generalizing handover with
  | nil =>
    obtain rfl : handover = final := by simpa using done
    exact iff_of_true free trivial
  | cons item rest ih =>
    obtain ⟨next, first, later⟩ := foldlM_cons_some done
    have nextSound := step_sound sound fits.1 first
    have unique (other : StreamHandover) (same : handover.step item = some other) : next = other :=
      Option.some.inj (first.symm.trans same)
    constructor
    · intro finallyFree
      have safe : handover.ClosesSafely item := by
        cases item with
        | append data => trivial
        | loop agedOut timing => trivial
        | close =>
          intro kind phase
          by_contra queued
          exact finallyFree ((close_stranded kind phase queued first).run later)
      have nextFree := step_not_stranded sound free safe first
      refine ⟨safe, fun other same => ?_⟩
      obtain rfl := unique other same
      exact (ih nextSound nextFree (fits.2 next first) later).mp finallyFree
    · intro clean
      have nextFree := step_not_stranded sound free clean.1 first
      exact (ih nextSound nextFree (fits.2 next first) later).mpr (clean.2 next first)

/-- When the loop has come to its end, the queue is empty unless bytes are stranded in it. -/
theorem Sound.consumed_eq_iff {handover : StreamHandover} (sound : handover.Sound)
    (ended : handover.phase = .reachedEof) :
    handover.consumed = handover.appended ↔ ¬handover.Stranded := by
  -- Nothing is lost on the way, so everything is consumed when the queue is empty.
  have drained : handover.consumed = handover.appended ↔ handover.queue.bytes = [] := by
    rw [← sound.nothingLost, List.self_eq_append_right]
  rw [drained]
  constructor
  · exact fun nothing stranded => stranded.queued nothing
  · intro free
    cases kind : handover.kind with
    | tcpServer => exact sound.drained ended kind
    | stdin =>
      by_contra queued
      exact free ⟨kind, sound.ended ended, queued, .inr ended⟩

/-- In every run within the cap at whose end the loop has seen the end of the stream, the loop has
consumed exactly what the worker has appended if and only if the worker closed safely. -/
theorem run_consumesAll_iff {kind : ProducerKind} {cap : Nat} {steps : List HandoverStep}
    {final : StreamHandover} (fits : CleanRun step FitsCap (start kind cap) steps)
    (done : steps.foldlM step (start kind cap) = some final) (ended : final.phase = .reachedEof) :
    final.consumed = final.appended ↔ CleanRun step ClosesSafely (start kind cap) steps := by
  have sound := start_sound kind cap
  have free : ¬(start kind cap).Stranded := fun stranded => stranded.queued rfl
  rw [(run_sound sound fits done).consumed_eq_iff ended]
  exact run_not_stranded_iff sound free fits done

/-- A turn without a flush. -/
def quietLoop : HandoverStep := .loop false ⟨false, [], []⟩

/-- The worker closes after the loop has taken its bytes. -/
def promptSteps : List HandoverStep :=
  [.append (bytes "a\n"), quietLoop, .close, quietLoop, quietLoop]

/-- Prompt steps: everything that was appended is consumed. -/
theorem promptSteps_consumed : ∃ final, promptSteps.foldlM step (start .stdin 2) = some final ∧
    final.phase = .reachedEof ∧ final.consumed = bytes "a\n" ∧ final.consumed = final.appended := by
  suffices both : CleanRun step FitsCap (start .stdin 2) promptSteps ∧
      CleanRun step ClosesSafely (start .stdin 2) promptSteps from
    ⟨_, rfl, by decide, by decide, (run_consumesAll_iff both.1 rfl (by decide)).mpr both.2⟩
  -- The queue has room at every append.
  constructor
  · refine ⟨.inr (by decide), fun _ first => ?_⟩
    cases first
    exact ⟨trivial, fun _ _ =>
      ⟨trivial, fun _ _ => ⟨trivial, fun _ _ => ⟨trivial, fun _ _ => trivial⟩⟩⟩⟩
  · -- The worker closes while the loop is between two reads.
    refine ⟨trivial, fun _ first => ?_⟩
    cases first
    refine ⟨trivial, fun _ second => ?_⟩
    cases second
    exact ⟨fun _ reading => absurd reading (by decide), fun _ _ =>
      ⟨trivial, fun _ _ => ⟨trivial, fun _ _ => trivial⟩⟩⟩

/-- The worker appends its last bytes and closes between the loop's `Read` and its `IsClosed`. -/
def hastySteps : List HandoverStep := [quietLoop, .append (bytes "a\n"), .close, quietLoop]

/-- Hasty steps: the line that was appended is never consumed. -/
theorem hastySteps_lose : ∃ final, CleanRun step FitsCap (start .stdin 0) hastySteps ∧
    hastySteps.foldlM step (start .stdin 0) = some final ∧ final.phase = .reachedEof ∧
    final.appended = bytes "a\n" ∧ final.consumed = [] ∧ final.consumed ≠ final.appended := by
  refine ⟨_, ⟨trivial, fun _ first => ?_⟩, rfl, by decide, by decide, by decide, by decide⟩
  cases first
  exact ⟨.inl rfl, fun _ _ => ⟨trivial, fun _ _ => ⟨trivial, fun _ _ => trivial⟩⟩⟩

end StreamHandover

end Loglib
