import Loglib.Pipeline.BatchCoalescer
import Loglib.Pipeline.ContinuationSplice

/-! The serial end of the static pipeline: parsed batches in, batches for the sink out, and one
record held back until it is known to be complete. -/

namespace Loglib

/-- `ParsedLineError`: the line is counted from one within the batch. -/
structure ParsedLineError where
  relativeLine : Nat
  body : Bytes
deriving DecidableEq, Repr

/-- `ParsedPipelineBatch`. -/
structure ParsedPipelineBatch where
  lines : List LogLine
  localLineOffsets : List Nat
  errors : List ParsedLineError
  ownedStringsArena : Bytes
  totalLineCount : Nat
  leadingContinuationBytes : Bytes
  leadingContinuationLineCount : Nat
  lastRecordOpenForContinuation : Bool
  continuationTargetKeyId : Option KeyId
  tailRecordLastPhysicalLine : Nat
  tailRecordHeaderPhysicalLine : Nat
  /-- The spans count physical lines within the batch. -/
  completedMultiLineSpans : List MultiLineRecordSpan

/-- The batch of no lines. -/
def ParsedPipelineBatch.empty : ParsedPipelineBatch :=
  ⟨[], [], [], [], 0, [], 0, false, none, 0, 0, []⟩

/-- `HeldTail`. -/
structure HeldTail where
  line : LogLine
  lineOffsets : List Nat
  continuationTargetKeyId : Option KeyId
  absoluteLineNumber : Nat
  headerLineIdx : Nat
  lastLineIdx : Nat

/-- What the serial stage keeps from batch to batch. -/
structure PipelineState where
  file : LogFile
  coalescer : BatchCoalescer
  held : Option HeldTail
  nextLineNumber : Nat

/-- `LogLine::ShiftLineId`. -/
def LogLine.shiftLineId (line : LogLine) (delta : Nat) : LogLine :=
  { line with lineId := line.lineId + delta }

/-- A slot whose text lies in an arena that was appended at an offset. -/
def CompactLogValue.rebase (delta : Nat) : CompactLogValue → CompactLogValue
  | .ownedString offset length => .ownedString (offset + delta) length
  | slot => slot

/-- `LogLine::RebaseOwnedStringOffsets`. -/
def LogLine.rebaseOwnedStringOffsets (line : LogLine) (delta : Nat) : LogLine :=
  { line with values := line.values.mapValues (·.rebase delta) }

/-- A span of the batch as absolute line ids. -/
def MultiLineRecordSpan.shift (span : MultiLineRecordSpan) (delta : Nat) : MultiLineRecordSpan :=
  ⟨delta + span.headerLineId, delta + span.lastLineId⟩

/-- The span of a held record, where it has more than one line. -/
def HeldTail.span (held : HeldTail) : Option MultiLineRecordSpan :=
  if held.headerLineIdx < held.lastLineIdx then some ⟨held.headerLineIdx, held.lastLineIdx⟩
    else none

/-- The text of an error with its absolute line. -/
def ParsedLineError.format (error : ParsedLineError) (lineNumberDelta : Nat) : Bytes :=
  bytes s!"Error on line {error.relativeLine + lineNumberDelta}: " ++ error.body

namespace PipelineState

/-- How far the line numbers of the next batch are behind. -/
def lineNumberDelta (state : PipelineState) : Nat := state.nextLineNumber - 1

/-- The lines of a batch with absolute ids, and with their decoded text in the file's arena. -/
def adoptLines (state : PipelineState) (parsed : ParsedPipelineBatch) :
    PipelineState × ParsedPipelineBatch :=
  let shifted := parsed.lines.map (·.shiftLineId state.lineNumberDelta)
  if parsed.ownedStringsArena = [] then (state, { parsed with lines := shifted })
  else
    let (file, delta) := state.file.appendOwnedStrings parsed.ownedStringsArena
    ({ state with file }, { parsed with lines := shifted.map (·.rebaseOwnedStringOffsets delta) })

/-- The text of the error for a splice that did not work. -/
def spliceError : ContinuationSpliceOutcome → List ParsedLineError
  | .ok => []
  | .missingTarget =>
    [⟨1, bytes "Continuation lines dropped: target field is not present in the record."⟩]
  | .nonStringTarget => [⟨1, bytes "Continuation lines dropped: target field is not a string."⟩]

/-- The leading continuation lines of a batch go to the held record, with their offsets. -/
def spliceLeading (state : PipelineState) (parsed : ParsedPipelineBatch) :
    PipelineState × ParsedPipelineBatch :=
  if parsed.leadingContinuationBytes = [] then (state, parsed)
  else
    match state.held with
    -- No record is held: the continuation has nothing to go to.
    | none =>
      (state, { parsed with
        errors := parsed.errors ++ [⟨1, bytes "Orphaned continuation line(s) at start of file."⟩] })
    | some held =>
      let (outcome, line, file) := spliceCrossBatchContinuation held.line state.file
        held.continuationTargetKeyId parsed.leadingContinuationBytes
      -- The first offsets are those of the continuation lines, and move to the held record.
      let moved := parsed.localLineOffsets.take parsed.leadingContinuationLineCount
      let extended : HeldTail :=
        if 0 < parsed.leadingContinuationLineCount then
          { held with
            line
            lineOffsets := held.lineOffsets ++ moved
            lastLineIdx := state.lineNumberDelta + parsed.leadingContinuationLineCount - 1 }
        else { held with line }
      ({ state with file, held := some extended },
        { parsed with
          errors := parsed.errors ++ spliceError outcome
          localLineOffsets := parsed.localLineOffsets.drop parsed.leadingContinuationLineCount })

/-- The last record of a batch, with its offset, where it stays open. -/
def openTail (state : PipelineState) (parsed : ParsedPipelineBatch) :
    Option HeldTail × ParsedPipelineBatch :=
  match parsed.lines.getLast? with
  | none => (none, parsed)
  | some tailLine =>
    -- A record that cannot go on is delivered with the others.
    if parsed.lastRecordOpenForContinuation = false then (none, parsed)
    else
      (some
        { line := tailLine
          lineOffsets := parsed.localLineOffsets.getLast?.toList
          continuationTargetKeyId := parsed.continuationTargetKeyId
          absoluteLineNumber := tailLine.lineId + 1
          headerLineIdx := state.lineNumberDelta + parsed.tailRecordHeaderPhysicalLine
          lastLineIdx := state.lineNumberDelta + parsed.tailRecordLastPhysicalLine },
        { parsed with
          lines := parsed.lines.dropLast
          localLineOffsets := parsed.localLineOffsets.dropLast })

/-- A batch with the parts of a released record in front. -/
def withReleased (released : Option HeldTail) (batch : SinkBatch) : SinkBatch :=
  match released with
  | none => batch
  | some held =>
    { batch with
      lines := held.line :: batch.lines
      localLineOffsets := held.lineOffsets ++ batch.localLineOffsets
      multiLineSpans := held.span.toList ++ batch.multiLineSpans }

/-- The parts of a parsed batch behind those of another batch. -/
def appendParsed (batch : SinkBatch) (parsed : ParsedPipelineBatch)
    (spans : List MultiLineRecordSpan)
    (lineNumberDelta : Nat) : SinkBatch :=
  { batch with
    lines := batch.lines ++ parsed.lines
    localLineOffsets := batch.localLineOffsets ++ parsed.localLineOffsets
    multiLineSpans := batch.multiLineSpans ++ spans
    errors := batch.errors ++ parsed.errors.map (·.format lineNumberDelta) }

/-- The sink wants every batch as it is: drain the keys into it, and send it unless it has
no content. -/
def deliverUncoalesced (coalescer : BatchCoalescer) (keysDrained : KeyIndex)
    (released : Option HeldTail)
    (parsed : ParsedPipelineBatch) (spans : List MultiLineRecordSpan) (nextLineNumber : Nat) :
    BatchCoalescer :=
  let content := withReleased released (appendParsed .empty parsed spans (nextLineNumber - 1))
  let out := coalescer.drainNewKeysInto keysDrained
    { content with firstLineNumber := (released.map (·.absoluteLineNumber)).getD nextLineNumber }
  if out.lines ≠ [] ∨ out.errors ≠ [] ∨ out.localLineOffsets ≠ [] ∨ out.multiLineSpans ≠ [] then
    (coalescer.drained keysDrained).onBatch out
  else coalescer.drained keysDrained

/-- A record that is released goes behind what is pending. -/
def pendReleased (coalescer : BatchCoalescer) (released : Option HeldTail) : BatchCoalescer :=
  match released with
  | none => coalescer
  | some held =>
    let primed := coalescer.prime held.absoluteLineNumber
    { primed with
      pending :=
        { primed.pending with
          lines := primed.pending.lines ++ [held.line]
          localLineOffsets := primed.pending.localLineOffsets ++ held.lineOffsets
          multiLineSpans := primed.pending.multiLineSpans ++ held.span.toList } }

/-- The sink wants larger batches: the content goes behind what is pending. -/
def deliverCoalesced (coalescer : BatchCoalescer) (now : FlushMoment) (released : Option HeldTail)
    (parsed : ParsedPipelineBatch) (spans : List MultiLineRecordSpan) (nextLineNumber : Nat) :
    BatchCoalescer :=
  let coalescer := pendReleased coalescer released
  let coalescer :=
    if parsed.lines = [] then coalescer
    else coalescer.prime (nextLineNumber + parsed.leadingContinuationLineCount)
  let filled :=
    { coalescer with pending := appendParsed coalescer.pending parsed spans (nextLineNumber - 1) }
  filled.tryFlush now

/-- The serial stage on one parsed batch. -/
def stageC (prefersUncoalesced : Bool) (state : PipelineState) (now : FlushMoment)
    (parsed : ParsedPipelineBatch) : PipelineState :=
  let spans := parsed.completedMultiLineSpans.map (·.shift state.lineNumberDelta)
  let (state, parsed) := state.adoptLines parsed
  let (state, parsed) := state.spliceLeading parsed
  -- A fresh record seals the held one.
  let batchHasNewRecords := parsed.lines ≠ []
  let released := if batchHasNewRecords then state.held else none
  let (newHeld, parsed) := state.openTail parsed
  { state with
    coalescer :=
      if prefersUncoalesced then
        deliverUncoalesced state.coalescer now.keysDrained released parsed spans
          state.nextLineNumber
      else deliverCoalesced state.coalescer now released parsed spans state.nextLineNumber
    held := if batchHasNewRecords then newHeld else state.held
    nextLineNumber := state.nextLineNumber + parsed.totalLineCount }

/-- The end of the file seals the held record, and the coalescer sends what is left. -/
def finish (prefersUncoalesced : Bool) (state : PipelineState) (tail last : FlushMoment) :
    BatchCoalescer :=
  let coalescer :=
    match state.held with
    | none => state.coalescer
    | some held =>
      -- The held record is sent by itself, or pended for the last flush.
      if prefersUncoalesced then
        let out := withReleased (some held)
          { SinkBatch.empty with firstLineNumber := held.absoluteLineNumber }
        (state.coalescer.drained tail.keysDrained).onBatch
          (state.coalescer.drainNewKeysInto tail.keysDrained out)
      else pendReleased state.coalescer (some held)
  coalescer.finish last state.nextLineNumber

end PipelineState

end Loglib
