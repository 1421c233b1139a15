import Loglib.Basic.SeparatedLines
import Loglib.Pipeline.BatchCoalescer
import Loglib.Pipeline.ContinuationSplice
import Loglib.Table.TimeBackfill

/-! The live-tail loop: bytes in, lines cut at newlines, records that later lines may continue. -/

namespace Loglib

/-- `LineDecodeResult`, with what an emitted record or an error comes with. -/
inductive LineDecodeResult where
  | emit (values : LineFields) (ownedArena : Bytes)
  | skip
  | error (text : Bytes)
  | continued

/-- A `CompactLineDecoder`: it may register keys, and a record only has registered ones. -/
structure CompactLineDecoder (σ : Type) where
  decode : σ → Bytes → KeyIndex → σ × KeyIndex × LineDecodeResult
  lastContinuationTarget : σ → Option KeyId
  grows : ∀ state line (keys : KeyIndex), keys.Grows (decode state line keys).2.1
  registered : ∀ state line (keys : KeyIndex) (values : LineFields) arena,
    (decode state line keys).2.2 = .emit values arena →
    ∀ entry ∈ values.entries, entry.1 < (decode state line keys).2.1.size

/-- `PendingRecord`, apart from the time it was opened at. -/
structure PendingRecord where
  rawText : Bytes
  ownedArena : Bytes
  compactValues : LineFields
  startLineNumber : Nat
  continuationTarget : Option KeyId
  continuationBytes : Bytes
  rawTextAppendix : Bytes
  pendingBlanks : Nat
  continuationAcceptsText : Bool
  droppedContinuationLines : Nat

/-- The variables of the loop. -/
structure StreamState (σ : Type) where
  source : StreamLineSource
  coalescer : BatchCoalescer
  keys : KeyIndex
  decoder : σ
  hints : List PromotionHints
  pending : Option PendingRecord
  nextLineNumber : Nat
  carry : Bytes
  /-- First and last line of the current run of orphaned continuation lines. -/
  orphanRun : Option (Nat × Nat)

/-- What stays the same during the loop. -/
structure StreamSetup (σ : Type) where
  decoder : CompactLineDecoder σ
  parse : TimestampParser
  timeColumns : List TimeColumnSpec

/-- `PromoteTimestamps`: each time column once, with its own hints. -/
def promoteColumns (parse : TimestampParser) (sources : List LineSource) :
    List TimeColumnSpec → List PromotionHints → LogLine → LogLine × List PromotionHints
  | spec :: specs, hints :: others, line =>
    let (line, hints) := spec.promoteLine parse sources hints line
    let (line, others) := promoteColumns parse sources specs others line
    (line, hints :: others)
  | _, others, line => (line, others)

/-- `canAcceptContinuation`: the target is there and holds text or nothing. -/
def canAcceptContinuation (values : LineFields) (target : Option KeyId) : Bool :=
  match target.bind values.lookup with
  | some slot => slot.isRawString || slot = .monostate
  | none => false

/-- Drop one trailing carriage return. -/
def trimCarriageReturn (line : Bytes) : Bytes := LogFile.dropCarriageReturn line

namespace StreamState

variable {σ : Type}

/-- Add an error to the pending batch. -/
def report (state : StreamState σ) (text : Bytes) : StreamState σ :=
  { state with
    coalescer :=
      { state.coalescer with
        pending := { state.coalescer.pending with
          errors := state.coalescer.pending.errors ++ [text] } } }

/-- `flushOrphanRun`: one error for the whole run. -/
def flushOrphanRun (state : StreamState σ) : StreamState σ :=
  match state.orphanRun with
  | none => state
  | some (first, last) =>
    let text :=
      if first = last then bytes s!"Error on line {first}: Orphaned continuation line."
      else bytes s!"Error on lines {first}-{last}: {last - first + 1} orphaned continuation lines dropped."
    { state.report text with orphanRun := none }

/-- The error for continuation lines whose bytes were kept but do not fit the target. -/
def spliceFailure (startLineNumber : Nat) (outcome : ContinuationSpliceOutcome) : Bytes :=
  bytes s!"Continuation lines dropped on line {startLineNumber}: " ++
    (if outcome = .missingTarget then bytes "target field is not present in the record"
      else bytes "target field is not a string") ++ bytes "."

/-- The error for continuation lines that were only counted. -/
def droppedLines (startLineNumber dropped : Nat) : Bytes :=
  bytes s!"Continuation lines dropped on line {startLineNumber} ({dropped} line" ++
    (if dropped = 1 then [] else bytes "s") ++
    bytes "): target field is not present in the record or is not a string."

/-- The record with its continuation lines joined, and whether that worked. -/
def joinContinuations (record : PendingRecord) : ContinuationSpliceOutcome × PendingRecord :=
  if record.continuationBytes = [] then (.ok, record)
  else
    let (outcome, compactValues, ownedArena) :=
      extendContinuationTarget record.compactValues record.ownedArena
      record.continuationTarget record.continuationBytes []
    let joined := { record with compactValues, ownedArena }
    if outcome = .ok then (outcome,
      { joined with rawText := record.rawText ++ record.rawTextAppendix })
    else (outcome, joined)

/-- A finished record as a line of the source and of the pending batch. The fields are
sorted already. -/
def appendRecord (setup : StreamSetup σ) (state : StreamState σ) (record : PendingRecord) :
    StreamState σ :=
  let (source, lineId) := state.source.appendLine record.rawText record.ownedArena
  let (line, hints) := promoteColumns setup.parse [.stream source] setup.timeColumns state.hints
    ⟨record.compactValues, 0, lineId⟩
  let primed := state.coalescer.prime record.startLineNumber
  { state with
    source
    hints
    coalescer := { primed with
      pending := { primed.pending with lines := primed.pending.lines ++ [line] } } }

/-- `commitPending`. -/
def commitPending (setup : StreamSetup σ) (state : StreamState σ) : StreamState σ :=
  match state.pending with
  | none => state
  | some record =>
    let state := { state with pending := none }
    let (outcome, joined) := joinContinuations record
    -- The record is delivered even if its continuations could not be joined.
    let state := if outcome = .ok then state
      else state.report (spliceFailure record.startLineNumber outcome)
    let state :=
      if record.droppedContinuationLines = 0 then state
      else state.report (droppedLines record.startLineNumber record.droppedContinuationLines)
    state.appendRecord setup joined

/-- A line that continues the pending record. -/
def continuePending (record : PendingRecord) (trimmed : Bytes) : PendingRecord :=
  -- Blank lines count only when text follows them.
  if record.continuationAcceptsText then
    { record with
      pendingBlanks := 0
      continuationBytes := record.continuationBytes ++ newline :: trimmed
      rawTextAppendix :=
        record.rawTextAppendix ++ List.replicate record.pendingBlanks newline ++
          newline :: trimmed }
  else
    { record with
      droppedContinuationLines := record.droppedContinuationLines + 1
      pendingBlanks := 0 }

/-- `processLine`. -/
def processLine (setup : StreamSetup σ) (state : StreamState σ) (line : Bytes) : StreamState σ :=
  let trimmed := trimCarriageReturn line
  let lineNumber := state.nextLineNumber
  let state := { state with nextLineNumber := lineNumber + 1 }
  if trimmed = [] then
    let state := state.flushOrphanRun
    -- A blank becomes part of the record only if another continuation follows.
    { state with
      pending := state.pending.map fun record =>
        if record.continuationAcceptsText then { record with
          pendingBlanks := record.pendingBlanks + 1 }
        else record }
  else
    let (decoder, keys, result) := setup.decoder.decode state.decoder trimmed state.keys
    let state := { state with decoder, keys }
    match result with
    | .error text => state.flushOrphanRun.report (bytes s!"Error on line {lineNumber}: " ++ text)
    | .skip => state.flushOrphanRun
    | .continued =>
      match state.pending with
      | some record =>
        { state.flushOrphanRun with pending := some (continuePending record trimmed) }
      | none =>
        { state with orphanRun := some ((state.orphanRun.map (·.1)).getD lineNumber, lineNumber) }
    | .emit values ownedArena =>
      -- A new record seals the one before.
      let state := state.flushOrphanRun.commitPending setup
      let continuationTarget := setup.decoder.lastContinuationTarget state.decoder
      { state with
        pending := some
          { rawText := trimmed
            ownedArena
            compactValues := values
            startLineNumber := lineNumber
            continuationTarget
            continuationBytes := []
            rawTextAppendix := []
            pendingBlanks := 0
            continuationAcceptsText := canAcceptContinuation values continuationTarget
            droppedContinuationLines := 0 } }

/-- `scanCarry`: the complete lines of the carry, at most so many of them where a stop
comes in between. -/
def scanCarry (setup : StreamSetup σ) (state : StreamState σ) (budget : Option Nat) :
    StreamState σ :=
  let (lines, rest) := splitLines newline state.carry
  let count := (budget.map (min lines.length)).getD lines.length
  let scanned := (lines.take count).foldl (processLine setup) state
  { scanned with carry := joinLines newline (lines.drop count) ++ rest }

/-- `TryFlush` of the loop's coalescer. -/
def tryFlush (state : StreamState σ) (timing : FlushTiming) : StreamState σ :=
  let now := timing.moment state.keys
  { state with coalescer := state.coalescer.tryFlush now, keys := now.keysDrained }

end StreamState

/-- One turn of the loop. The bytes that format detection has read come first, as if just read. -/
inductive LoopEvent where
  | read (text : Bytes) (timing : FlushTiming)
  /-- Nothing to read yet; a record that has been pending for too long is committed. -/
  | idle (agedOut : Bool) (timing : FlushTiming)

/-- How the loop ends: the producer is closed, or a stop is requested, perhaps while lines
are scanned. -/
inductive LoopEnd where
  | eof (timing : FlushTiming)
  | stopped
  | stoppedInScan (text : Bytes) (budget : Nat) (timing : FlushTiming)

namespace StreamState

variable {σ : Type}

/-- One turn of the loop. -/
def turn (setup : StreamSetup σ) (state : StreamState σ) : LoopEvent → StreamState σ
  | .read text timing =>
    ({ state with carry := state.carry ++ text }.scanCarry setup none).tryFlush timing
  | .idle agedOut timing => (if agedOut then state.commitPending setup else state).tryFlush timing

/-- The last record and the last orphans, before the coalescer finishes. -/
def wrapUp (setup : StreamSetup σ) (state : StreamState σ) (stopRequested : Bool) : StreamState σ :=
  let state :=
    if state.carry = [] ∨ stopRequested = true then state
    else { state.processLine setup state.carry with carry := [] }
  state.flushOrphanRun.commitPending setup

/-- The end of the loop, up to the last batch. -/
def conclude (setup : StreamSetup σ) (state : StreamState σ) : LoopEnd → StreamState σ
  | .eof timing => ((state.scanCarry setup none).tryFlush timing).wrapUp setup false
  | .stopped => state.wrapUp setup true
  | .stoppedInScan text budget timing =>
    (({ state with carry := state.carry ++ text }.scanCarry setup (some budget)).tryFlush
      timing).wrapUp setup true

/-- The state before the first byte. -/
def start (keys : KeyIndex) (flushLines : Nat) (newKeyBaseline : Option Nat) (decoder : σ)
    (hints : List PromotionHints) : StreamState σ :=
  ⟨.empty, .start keys flushLines newKeyBaseline, keys, decoder, hints, none, 1, [], none⟩

end StreamState

/-- `RunStreamingParseLoop`: the state at its end and what the sink has been given. -/
def runStreamingParseLoop {σ : Type} (setup : StreamSetup σ) (state : StreamState σ)
    (events : List LoopEvent)
    (ending : LoopEnd) (last : FlushTiming) : StreamState σ × List SinkBatch :=
  let state := (events.foldl (StreamState.turn setup) state).conclude setup ending
  let now := last.moment state.keys
  ({ state with keys := now.keysDrained }, (state.coalescer.finish now state.nextLineNumber).sink)

end Loglib
