import Loglib.Basic.Runs
import Loglib.Pipeline.BatchCoalescer

/-! The sink between the worker thread of a parser and the window: a bounded queue, a
buffer for what comes in while the stream is paused, and the calls that the worker posts
to the window's thread. -/

namespace Loglib

namespace SinkBatch

/-- `CoalesceLocked`. -/
def coalesce (batches : List SinkBatch) : SinkBatch where
  lines := batches.flatMap (·.lines)
  localLineOffsets := batches.flatMap (·.localLineOffsets)
  newKeys := batches.flatMap (·.newKeys)
  multiLineSpans := batches.flatMap (·.multiLineSpans)
  errors := batches.flatMap (·.errors)
  firstLineNumber := (batches.head?.map (·.firstLineNumber)).getD 0

/-- `PausedLineCountLocked`. -/
def lineCount (batches : List SinkBatch) : Nat := (batches.map (·.lines.length)).sum

/-- The loop that trims a buffer: whole batches first, then the first rows of the next one. A batch
with line offsets goes as a whole. With the number of rows that are gone. -/
def trimFront : Nat → List SinkBatch → List SinkBatch × Nat
  | _, [] => ([], 0)
  | toDrop, batch :: rest =>
    -- The loop ends once enough rows are gone.
    if toDrop = 0 then (batch :: rest, 0)
    else
      let rows := batch.lines.length
      if rows ≤ toDrop ∨ batch.localLineOffsets ≠ [] then
        let (kept, dropped) := trimFront (toDrop - rows) rest
        (kept, rows + dropped)
      else
        ({ batch with
            lines := batch.lines.drop toDrop
            firstLineNumber := batch.firstLineNumber + toDrop } :: rest, toDrop)

end SinkBatch

/-- `QtStreamingLogSink` with its bounded queue. -/
structure StreamingLogSink where
  pending : List SinkBatch
  capacity : Nat
  pausedBatches : List SinkBatch
  paused : Bool
  pausedDropCount : Nat
  /-- Zero for no limit. -/
  retentionCap : Nat
  drainScheduled : Bool
  generation : Nat
  active : Bool

/-- Where the worker is: outside the sink, or between two of the accesses that `OnBatch` makes. -/
inductive SinkWorker where
  | ready
  | began (batch : SinkBatch)
  | sawPaused (batch : SinkBatch)
  | buffering (batch : SinkBatch) (cap : Nat)
  | enqueueing (batch : SinkBatch)
  | enqueued
  | posting
  | ended

/-- A call that waits in the event queue of the window's thread. -/
inductive PostedCall where
  | drain (generation : Nat)
  | finished (generation : Nat) (cancelled : Bool)

/-- The sink, its worker and the window's thread. -/
structure SinkSystem where
  sink : StreamingLogSink
  worker : SinkWorker
  events : List PostedCall
  /-- The generation of a drain that has begun. -/
  draining : Option Nat
  /-- The batches of all `OnBatch` calls. -/
  received : List SinkBatch
  /-- The batches of all calls to `AppendBatch` of the model. -/
  handed : List SinkBatch
  /-- The drop counts of the streams before this one. -/
  countedBefore : Nat

/-- One access of the worker to the sink, or one call on the window's thread. -/
inductive SinkStep where
  | onBatch (batch : SinkBatch)
  | worker
  | onFinished (cancelled : Bool)
  | runEvent
  | drainAll
  | pause
  | resume
  | trimPausedBufferTo (maxBufferedLines : Nat)
  | setRetentionCap (cap : Nat)
  | appendStreaming

namespace StreamingLogSink

/-- A sink with an empty queue and nothing armed. -/
def ofCapacity (capacity : Nat) : StreamingLogSink where
  pending := []
  capacity := if capacity = 0 then 1 else capacity
  pausedBatches := []
  paused := false
  pausedDropCount := 0
  retentionCap := 0
  drainScheduled := false
  generation := 0
  active := false

/-- `Arm`. -/
def arm (sink : StreamingLogSink) : StreamingLogSink :=
  { sink with
    generation := sink.generation + 1
    pausedBatches := []
    pending := []
    drainScheduled := false
    paused := false
    pausedDropCount := 0
    active := true }

/-- How many rows of a buffer are above a cap. -/
def excess (cap : Nat) (batches : List SinkBatch) : Nat :=
  if cap = 0 then 0 else SinkBatch.lineCount batches - cap

/-- What `OnBatch` does under the lock while the stream is paused. -/
def bufferPaused (sink : StreamingLogSink) (batch : SinkBatch) (cap : Nat) : StreamingLogSink :=
  let batches := sink.pausedBatches ++ [batch]
  let (kept, dropped) := SinkBatch.trimFront (excess cap batches) batches
  { sink with
    pausedBatches := kept
    pausedDropCount := sink.pausedDropCount + dropped }

/-- `TrimPausedBufferTo`. -/
def trimPausedBufferTo (sink : StreamingLogSink) (maxBufferedLines : Nat) : StreamingLogSink :=
  let toDrop := SinkBatch.lineCount sink.pausedBatches - maxBufferedLines
  { sink with pausedBatches := (SinkBatch.trimFront toDrop sink.pausedBatches).1 }

end StreamingLogSink

namespace SinkSystem

/-- The first stream is armed. -/
def start (capacity : Nat) : SinkSystem where
  sink := (StreamingLogSink.ofCapacity capacity).arm
  worker := .ready
  events := []
  draining := none
  received := []
  handed := []
  countedBefore := 0

/-- `AppendBatch` of the model takes what has been drained. -/
def appendBatch (system : SinkSystem) (drained : List SinkBatch) : SinkSystem :=
  if drained = [] then system
  else { system with handed := system.handed ++ [SinkBatch.coalesce drained] }

/-- The next access of `OnBatch`. `none` while the queue is full, and outside `OnBatch`. -/
def stepWorker (system : SinkSystem) : Option SinkSystem :=
  let sink := system.sink
  match system.worker with
  | .ready => none
  | .began batch =>
    some { system with worker := if sink.paused then .sawPaused batch else .enqueueing batch }
  | .sawPaused batch => some { system with worker := .buffering batch sink.retentionCap }
  | .buffering batch cap =>
    -- The flag is read again under the lock.
    if sink.paused then some { system with sink := sink.bufferPaused batch cap, worker := .ready }
    else some { system with worker := .enqueueing batch }
  | .enqueueing batch =>
    if sink.pending.length < sink.capacity then
      some { system with
        sink := { sink with pending := sink.pending ++ [batch] }
        worker := .enqueued }
    else none
  | .enqueued =>
    some { system with
      sink := { sink with drainScheduled := true }
      worker := if sink.drainScheduled then .ready else .posting }
  | .posting =>
    some { system with events := system.events ++ [.drain sink.generation], worker := .ready }
  | .ended => none

/-- The window's thread takes the next posted call. -/
def runEvent (system : SinkSystem) : Option SinkSystem :=
  match system.events with
  | [] => none
  | .drain generation :: rest =>
    -- `DrainGeneration` opens the door for the next drain before it looks into the queue.
    some { system with
      sink := { system.sink with drainScheduled := false }
      events := rest
      draining := some generation }
  | .finished generation _ :: rest =>
    some { system with
      sink := if generation = system.sink.generation then { system.sink with active := false }
        else system.sink
      events := rest }

/-- The rest of `DrainGeneration`. -/
def drainAll (system : SinkSystem) : Option SinkSystem :=
  system.draining.map fun generation =>
    let drained := system.sink.pending
    let system := { system with sink := { system.sink with pending := [] }, draining := none }
    if generation = system.sink.generation then system.appendBatch drained else system

/-- `Resume`. -/
def resume (system : SinkSystem) : SinkSystem :=
  if system.sink.paused = false then system
  else
    ({ system with
      sink := { system.sink with pausedBatches := [], paused := false } } : SinkSystem).appendBatch
        system.sink.pausedBatches

/-- Another source is appended once the stream has ended: the sink is armed for the next worker. -/
def appendStreaming (system : SinkSystem) : Option SinkSystem :=
  if system.sink.active then none
  else
    some { system with
      sink := system.sink.arm
      worker := .ready
      countedBefore := system.countedBefore + system.sink.pausedDropCount }

/-- One step. `none` where it cannot be taken. -/
def step (system : SinkSystem) : SinkStep → Option SinkSystem
  | .onBatch batch =>
    match system.worker with
    | .ready => some { system with worker := .began batch, received := system.received ++ [batch] }
    | _ => none
  | .worker => system.stepWorker
  | .onFinished cancelled =>
    match system.worker with
    | .ready =>
      some { system with
        events := system.events ++ [.finished system.sink.generation cancelled]
        worker := .ended }
    | _ => none
  | .drainAll => system.drainAll
  -- The other calls of the window's thread wait until a drain is done.
  | .runEvent => if system.draining.isSome then none else system.runEvent
  | .pause =>
    if system.draining.isSome then none
      else some { system with sink := { system.sink with paused := true } }
  | .resume => if system.draining.isSome then none else some system.resume
  | .trimPausedBufferTo maxBufferedLines =>
    if system.draining.isSome then none
    else some { system with sink := system.sink.trimPausedBufferTo maxBufferedLines }
  | .setRetentionCap cap =>
    if system.draining.isSome then none
      else some { system with sink := { system.sink with retentionCap := cap } }
  | .appendStreaming => if system.draining.isSome then none else system.appendStreaming

/-- A run, `none` once a step cannot be taken. -/
def run (system : SinkSystem) (steps : List SinkStep) : Option SinkSystem :=
  steps.foldlM step system

end SinkSystem

end Loglib
