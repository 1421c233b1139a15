import Loglib.Table.LogTable

/-! How a parser's output is coalesced into batches, and which new keys each batch reports. -/

namespace Loglib

/-- A `StreamedBatch` as a sink gets it, with the error texts and the line number it starts at. -/
structure SinkBatch extends StreamedBatch where
  errors : List Bytes
  firstLineNumber : Nat

namespace SinkBatch

/-- The batch without anything. -/
def empty : SinkBatch := ⟨⟨[], [], [], []⟩, [], 0⟩

end SinkBatch

/-- The names of a key index from one id on, in id order. -/
def KeyIndex.namesFrom (keys : KeyIndex) (first : KeyId) : List Bytes :=
  keys.reverse.names.drop first

/-- `BatchCoalescer`, with what its sink has been given so far. -/
structure BatchCoalescer where
  pending : SinkBatch
  primed : Bool
  prevKeyCount : Nat
  flushLines : Nat
  sink : List SinkBatch

/-- What a flush sees of the rest of the program: whether its interval is over, and the key index
when it decides and when it drains. Parser threads may register keys in between. -/
structure FlushMoment where
  intervalReached : Bool
  keysSeen : KeyIndex
  keysDrained : KeyIndex

/-- Register names in order. -/
def KeyIndex.registerAll (keys : KeyIndex) (names : List Bytes) : KeyIndex :=
  names.foldl (fun keys name => (keys.getOrInsert name).1) keys

/-- A flush by its timing: the names that other threads register before it decides, and in
between. -/
structure FlushTiming where
  intervalReached : Bool
  registeredBefore : List Bytes
  registeredBetween : List Bytes

/-- The moment of a flush whose own thread has the given keys. -/
def FlushTiming.moment (timing : FlushTiming) (keys : KeyIndex) : FlushMoment where
  intervalReached := timing.intervalReached
  keysSeen := keys.registerAll timing.registeredBefore
  keysDrained := (keys.registerAll timing.registeredBefore).registerAll timing.registeredBetween

/-- Registering names keeps those that are there. -/
theorem KeyIndex.registerAll_grows (keys : KeyIndex) (names : List Bytes) :
    keys.Grows (keys.registerAll names) := by
  induction names generalizing keys with
  | nil => exact KeyIndex.Grows.refl keys
  | cons name names ih => exact (keys.getOrInsert_grows name).trans (ih _)

namespace BatchCoalescer

/-- A coalescer before its first batch. The baseline defaults to the size of the key index. -/
def start (keys : KeyIndex) (flushLines : Nat) (newKeyBaseline : Option Nat) : BatchCoalescer where
  pending := .empty
  primed := false
  prevKeyCount := newKeyBaseline.getD keys.size
  flushLines := flushLines
  sink := []

/-- `Prime`: only the first call sets the line number. -/
def prime (coalescer : BatchCoalescer) (firstLineNumber : Nat) : BatchCoalescer :=
  if coalescer.primed then coalescer
  else
    { coalescer with
      pending := { coalescer.pending with firstLineNumber := firstLineNumber }
      primed := true }

/-- `DrainNewKeysInto`: the batch with the names registered since the last drain. -/
def drainNewKeysInto (coalescer : BatchCoalescer) (keys : KeyIndex) (out : SinkBatch) : SinkBatch :=
  { out with newKeys := out.newKeys ++ keys.namesFrom coalescer.prevKeyCount }

/-- The cursor after a drain. -/
def drained (coalescer : BatchCoalescer) (keys : KeyIndex) : BatchCoalescer :=
  { coalescer with prevKeyCount := max coalescer.prevKeyCount keys.size }

/-- `OnBatch` of the sink. -/
def onBatch (coalescer : BatchCoalescer) (batch : SinkBatch) : BatchCoalescer :=
  { coalescer with sink := coalescer.sink ++ [batch] }

/-- Drain the keys into the pending batch, send it, and start the next one. -/
def ship (coalescer : BatchCoalescer) (keys : KeyIndex) : BatchCoalescer :=
  let batch := coalescer.drainNewKeysInto keys coalescer.pending
  { (coalescer.drained keys).onBatch batch with
    pending := .empty
    primed := false }

/-- `TryFlush` without force: only past a threshold, and only with something to send. -/
def tryFlush (coalescer : BatchCoalescer) (now : FlushMoment) : BatchCoalescer :=
  let sizeReached := coalescer.flushLines ≤ coalescer.pending.lines.length
  let hasContent := coalescer.pending.lines ≠ [] ∨ coalescer.pending.errors ≠ [] ∨
    coalescer.prevKeyCount < now.keysSeen.size
  if ¬sizeReached ∧ now.intervalReached = false then coalescer
  else if hasContent then coalescer.ship now.keysDrained
  else coalescer

/-- `Finish`: a last batch, empty if nothing is left. -/
def finish (coalescer : BatchCoalescer) (now : FlushMoment) (fallbackLineNumber : Nat) :
    BatchCoalescer :=
  let hasContent := coalescer.primed = true ∨ coalescer.prevKeyCount < now.keysSeen.size ∨
    coalescer.pending.errors ≠ [] ∨ coalescer.pending.localLineOffsets ≠ []
  if hasContent then (coalescer.prime fallbackLineNumber).ship now.keysDrained
  else
    let tail : SinkBatch := { SinkBatch.empty with firstLineNumber := fallbackLineNumber }
    (coalescer.drained now.keysDrained).onBatch (coalescer.drainNewKeysInto now.keysDrained tail)

end BatchCoalescer

end Loglib
