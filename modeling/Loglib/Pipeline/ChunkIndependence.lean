import Loglib.Pipeline.LineTable
import Loglib.Pipeline.StreamedKeys
import Loglib.Pipeline.StreamingLoop

/-! A stream may be cut into reads anywhere: the rows and the errors are those of its lines. -/

namespace Loglib

/-- The error texts of a batch. -/
def ContentPart.errors : ContentPart Bytes := ⟨(·.errors), fun _ _ _ => rfl, rfl⟩

namespace BatchCoalescer

/-- Two coalescers that have been given the same rows and errors. -/
structure SameContent (first second : BatchCoalescer) : Prop where
  lines : second.output .lines = first.output .lines
  errors : second.output .errors = first.output .errors

variable {first second : BatchCoalescer}

/-- Every coalescer has its own content. -/
@[refl] theorem SameContent.refl (coalescer : BatchCoalescer) : coalescer.SameContent coalescer :=
  ⟨rfl, rfl⟩

/-- A flush changes no content. -/
theorem SameContent.tryFlush (same : first.SameContent second) (now : FlushMoment) :
    first.SameContent (second.tryFlush now) :=
  ⟨(output_tryFlush .lines second now).trans same.lines,
    (output_tryFlush .errors second now).trans same.errors⟩

/-- The coalescer with one more error. -/
def report (coalescer : BatchCoalescer) (text : Bytes) : BatchCoalescer :=
  { coalescer with
    pending := { coalescer.pending with errors := coalescer.pending.errors ++ [text] } }

/-- The coalescer with one more row. -/
def appendRow (coalescer : BatchCoalescer) (firstLineNumber : Nat) (line : LogLine) :
    BatchCoalescer :=
  let primed := coalescer.prime firstLineNumber
  { primed with pending := { primed.pending with lines := primed.pending.lines ++ [line] } }

/-- An error is appended to the errors. -/
theorem output_report (coalescer : BatchCoalescer) (text : Bytes) :
    (coalescer.report text).output .lines = coalescer.output .lines ∧
      (coalescer.report text).output .errors = coalescer.output .errors ++ [text] :=
  ⟨rfl, (List.append_assoc _ _ _).symm⟩

/-- A row is appended to the rows. -/
theorem output_appendRow (coalescer : BatchCoalescer) (firstLineNumber : Nat) (line : LogLine) :
    (coalescer.appendRow firstLineNumber line).output .lines = coalescer.output .lines ++ [line] ∧
      (coalescer.appendRow firstLineNumber line).output .errors = coalescer.output .errors := by
  have lines := output_prime .lines coalescer firstLineNumber
  have errors := output_prime .errors coalescer firstLineNumber
  refine ⟨?_, errors⟩
  rw [← lines]
  exact (List.append_assoc _ _ _).symm

/-- The same error on both sides. -/
theorem SameContent.report (same : first.SameContent second) (text : Bytes) :
    (first.report text).SameContent (second.report text) :=
  ⟨same.lines, by rw [(output_report second text).2, (output_report first text).2, same.errors]⟩

/-- The same row on both sides. -/
theorem SameContent.appendRow (same : first.SameContent second) (left right : Nat)
    (line : LogLine) :
    (first.appendRow left line).SameContent (second.appendRow right line) := by
  obtain ⟨leftLines, leftErrors⟩ := output_appendRow first left line
  obtain ⟨rightLines, rightErrors⟩ := output_appendRow second right line
  exact ⟨by rw [leftLines, rightLines, same.lines], by rw [leftErrors, rightErrors, same.errors]⟩

/-- A row in the pending batch has primed it. -/
def Primed (coalescer : BatchCoalescer) : Prop := coalescer.pending.lines ≠ [] →
    coalescer.primed = true

/-- A flush leaves a primed batch, or none. -/
theorem Primed.tryFlush {coalescer : BatchCoalescer} (primed : coalescer.Primed)
    (now : FlushMoment) :
    (coalescer.tryFlush now).Primed := by
  unfold BatchCoalescer.tryFlush
  simp only
  -- Nothing to flush, not yet due, or everything sent.
  split
  · exact primed
  · split
    · exact fun some_ => absurd rfl some_
    · exact primed

/-- A new row primes its batch. -/
theorem primed_appendRow (coalescer : BatchCoalescer) (firstLineNumber : Nat) (line : LogLine) :
    (coalescer.appendRow firstLineNumber line).Primed := by
  intro _
  unfold appendRow prime
  simp only
  split
  · assumption
  · rfl

/-- The end of the parse sends all rows and all errors. -/
theorem finish_sends_all {coalescer : BatchCoalescer} (primed : coalescer.Primed)
    (now : FlushMoment)
    (fallbackLineNumber : Nat) :
    (coalescer.finish now fallbackLineNumber).sink.flatMap (·.lines) = coalescer.output .lines ∧
      (coalescer.finish now fallbackLineNumber).sink.flatMap
        (·.errors) = coalescer.output .errors :=
  ⟨finish_sends .lines now fallbackLineNumber fun some_ => .inl (primed some_),
    finish_sends .errors now fallbackLineNumber fun some_ => .inr (.inl some_)⟩

end BatchCoalescer

namespace StreamState

variable {σ : Type} (setup : StreamSetup σ) {first second : StreamState σ}

/-- The same state, but for how the output has been batched and for the carry, which only
the scan reads. -/
structure Alike (first second : StreamState σ) : Prop where
  rest : second = { first with coalescer := second.coalescer, carry := second.carry }
  content : first.coalescer.SameContent second.coalescer

/-- Every state is like itself. -/
@[refl] theorem Alike.refl (state : StreamState σ) : state.Alike state := ⟨rfl, .refl _⟩

/-- Alike states stay alike under one function after the other. -/
theorem Alike.trans {third : StreamState σ} (left : first.Alike second)
    (right : second.Alike third) :
    first.Alike third := by
  refine ⟨?_, right.content.lines.trans left.content.lines,
    right.content.errors.trans left.content.errors⟩
  rw [right.rest, left.rest]

/-- A flush that finds no foreign keys keeps everything but the batches. -/
theorem tryFlush_alike (state : StreamState σ) (intervalReached : Bool) :
    state.Alike (state.tryFlush ⟨intervalReached, [], []⟩) :=
  ⟨rfl, (BatchCoalescer.SameContent.refl _).tryFlush _⟩

/-- The same error in both states. -/
theorem Alike.report (alike : first.Alike second) (text : Bytes) :
    (first.report text).Alike (second.report text) := by
  refine ⟨?_, alike.content.report text⟩
  rw [alike.rest]
  rfl

/-- The orphans so far become an error in both states. -/
theorem Alike.flushOrphanRun (alike : first.Alike second) :
    first.flushOrphanRun.Alike second.flushOrphanRun := by
  obtain ⟨rest, content⟩ := alike
  rw [rest]
  obtain ⟨source, coalescer, keys, decoder, hints, pending, nextLineNumber, carry, orphanRun⟩ :=
    first
  unfold StreamState.flushOrphanRun
  -- The report of an orphaned run goes into both alike.
  cases orphanRun with
  | none => exact ⟨rfl, content⟩
  | some run => exact ⟨rfl, content.report _⟩

/-- The same record becomes the same row in both states. -/
theorem Alike.appendRecord (alike : first.Alike second) (record : PendingRecord) :
    (first.appendRecord setup record).Alike (second.appendRecord setup record) := by
  obtain ⟨rest, content⟩ := alike
  rw [rest]
  exact ⟨rfl, content.appendRow _ _ _⟩

/-- The pending record is committed in both states. -/
theorem Alike.commitPending (alike : first.Alike second) :
    (first.commitPending setup).Alike (second.commitPending setup) := by
  -- An error that both report, or neither, keeps them alike.
  have reported : ∀ {left right : StreamState σ} (fine : Prop) [Decidable fine] (text : Bytes),
    left.Alike right →
      (if fine then left else left.report text).Alike (if fine then right
        else right.report text) := by
    intro left right fine _ text same
    split
    · exact same
    · exact same.report text
  obtain ⟨rest, content⟩ := alike
  rw [rest]
  -- The two differ in the coalescer and the carry, and neither is asked here.
  obtain ⟨source, coalescer, keys, decoder, hints, pending, nextLineNumber, carry, orphanRun⟩ :=
    first
  unfold StreamState.commitPending
  cases pending with
  | none => exact ⟨rfl, content⟩
  | some record =>
    -- Taking the record out leaves them alike, and so do its errors and its row.
    have emptied : StreamState.Alike (σ := σ)
        ⟨source, coalescer, keys, decoder, hints, none, nextLineNumber, carry, orphanRun⟩
        ⟨source, second.coalescer, keys, decoder, hints, none, nextLineNumber, second.carry,
          orphanRun⟩ := ⟨rfl, content⟩
    exact (reported _ _ (reported _ _ emptied)).appendRecord setup _

/-- A line does the same in both states. -/
theorem Alike.processLine (alike : first.Alike second) (line : Bytes) :
    (first.processLine setup line).Alike (second.processLine setup line) := by
  obtain ⟨rest, content⟩ := alike
  rw [rest]
  -- The decoder's two promises mention its step, so it is taken apart first.
  obtain ⟨⟨decode, lastContinuationTarget, grows, registered⟩, parse, timeColumns⟩ := setup
  unfold StreamState.processLine
  simp only
  split
  · -- A blank line only closes a run of orphans.
    have advanced : ({ first with nextLineNumber := first.nextLineNumber + 1 } :
      StreamState σ).Alike
        { first with
          coalescer := second.coalescer, carry := second.carry, nextLineNumber :=
            first.nextLineNumber + 1 } :=
      ⟨rfl, content⟩
    have flushed := advanced.flushOrphanRun
    refine ⟨?_, flushed.content⟩
    rw [flushed.rest]
  · generalize decode first.decoder (trimCarriageReturn line) first.keys = decoded
    obtain ⟨decoder, keys, result⟩ := decoded
    have advanced : ({ first with nextLineNumber := first.nextLineNumber + 1, decoder, keys } :
      StreamState σ).Alike
        { first with
          coalescer := second.coalescer, carry := second.carry, nextLineNumber :=
            first.nextLineNumber + 1, decoder
          keys } :=
      ⟨rfl, content⟩
    cases result with
    | error text => exact advanced.flushOrphanRun.report _
    | skip => exact advanced.flushOrphanRun
    | continued =>
      obtain ⟨source, coalescer, oldKeys, oldDecoder, hints, pending, nextLineNumber, carry,
        orphanRun⟩ := first
      cases pending with
      | none => exact ⟨rfl, content⟩
      | some record =>
        refine ⟨?_, advanced.flushOrphanRun.content⟩
        simp only
        rw [advanced.flushOrphanRun.rest]
    | emit values ownedArena =>
      have committed := advanced.flushOrphanRun.commitPending
        ⟨⟨decode, lastContinuationTarget, grows, registered⟩, parse, timeColumns⟩
      refine ⟨?_, committed.content⟩
      simp only
      rw [committed.rest]

/-- So do all lines of a read. -/
theorem Alike.processLines (alike : first.Alike second) (lines : List Bytes) :
    (lines.foldl (StreamState.processLine setup) first).Alike
      (lines.foldl (StreamState.processLine setup) second) := by
  induction lines generalizing first second with
  | nil => exact alike
  | cons line lines ih => exact ih (alike.processLine setup line)

end StreamState

section Cuts

/-- No other thread registers keys around the flush: the loop is the only parser of its sink. -/
def FlushTiming.Lone (timing : FlushTiming) : Prop :=
  timing.registeredBefore = [] ∧ timing.registeredBetween = []

/-- A turn without a timeout and without foreign keys. -/
def LoopEvent.Undisturbed : LoopEvent → Prop
  | .read _ timing => timing.Lone
  | .idle agedOut timing => agedOut = false ∧ timing.Lone

/-- The bytes of a turn. -/
def LoopEvent.text : LoopEvent → Bytes
  | .read text _ => text
  | .idle _ _ => []

/-- All bytes that the turns read. -/
def readBytes (events : List LoopEvent) : Bytes := events.flatMap (·.text)

namespace StreamState

variable {σ : Type} (setup : StreamSetup σ)

/-- A lone flush keeps everything but the batches. -/
theorem tryFlush_lone (state : StreamState σ) {timing : FlushTiming} (lone : timing.Lone) :
    state.Alike (state.tryFlush timing) := by
  obtain ⟨intervalReached, before, between⟩ := timing
  obtain ⟨rfl, rfl⟩ : before = [] ∧ between = [] := lone
  exact tryFlush_alike state intervalReached

/-- A read hands over the complete lines and keeps the rest as the carry. -/
theorem turn_read (state : StreamState σ) (text : Bytes) {timing : FlushTiming}
    (lone : timing.Lone) :
    ((splitLines newline (state.carry ++ text)).1.foldl (processLine setup) state).Alike
        (state.turn setup (.read text timing)) ∧
      (state.turn setup (.read text timing)).carry =
        (splitLines newline (state.carry ++ text)).2 := by
  -- The carry grows by the text before its lines are scanned.
  have carried : state.Alike { state with carry := state.carry ++ text } := ⟨rfl, .refl _⟩
  have scanned : ((splitLines newline (state.carry ++ text)).1.foldl
    (processLine setup) state).Alike
      ({ state with carry := state.carry ++ text }.scanCarry setup none) := by
    refine (carried.processLines setup _).trans ⟨?_, ?_⟩
    · simp [scanCarry]
    · simp only [scanCarry, Option.map_none, Option.getD_none, List.take_length]
      rfl
  exact ⟨scanned.trans (tryFlush_lone _ lone), by simp [turn, tryFlush, scanCarry]⟩

/-- Turn by turn, the lines of all bytes are processed, wherever the reads were cut. -/
theorem turns_alike {events : List LoopEvent} (undisturbed : ∀ event ∈ events, event.Undisturbed)
    (state : StreamState σ) (unfinished : newline ∉ state.carry) :
    ((splitLines newline (state.carry ++ readBytes events)).1.foldl (processLine setup) state).Alike
        (events.foldl (turn setup) state) ∧
      (events.foldl (turn setup) state).carry =
        (splitLines newline (state.carry ++ readBytes events)).2 := by
  induction events generalizing state with
  | nil =>
    have split := splitLines_of_not_mem newline unfinished
    simp only [readBytes, List.flatMap_nil, List.append_nil, split, List.foldl_nil]
    exact ⟨.refl _, trivial⟩
  | cons event events ih =>
    obtain ⟨first, others⟩ := List.forall_mem_cons.mp undisturbed
    cases event with
    | read text timing =>
      obtain ⟨alike, carry⟩ := turn_read setup state text first
      have left : newline ∉ (state.turn setup (.read text timing)).carry := by
        rw [carry]
        exact (not_mem_splitLines newline _).2
      obtain ⟨later, rest⟩ := ih others (state.turn setup (.read text timing)) left
      -- The rest of this read is where the next one goes on.
      have all : splitLines newline (state.carry ++ readBytes (.read text timing :: events)) =
          ((splitLines newline (state.carry ++ text)).1 ++
              (splitLines newline ((splitLines newline (state.carry ++ text)).2 ++
                readBytes events)).1,
            (splitLines newline ((splitLines newline (state.carry ++ text)).2 ++
              readBytes events)).2) := by
        rw [← splitLines_append, List.append_assoc]
        rfl
      rw [carry] at later rest
      rw [all, List.foldl_append]
      exact ⟨(alike.processLines setup _).trans later, rest⟩
    | idle agedOut timing =>
      obtain ⟨rfl, lone⟩ : agedOut = false ∧ timing.Lone := first
      have alike := tryFlush_lone state lone
      obtain ⟨later, rest⟩ := ih others (state.turn setup (.idle false timing)) unfinished
      exact ⟨(alike.processLines setup _).trans later, rest⟩

/-- At the end of the stream, all its lines have been processed, and the last record is
committed. -/
theorem conclude_alike {events : List LoopEvent} (undisturbed : ∀ event ∈ events, event.Undisturbed)
    {timing : FlushTiming} (lone : timing.Lone) (state : StreamState σ)
    (unfinished : newline ∉ state.carry) :
    (((physicalLines (state.carry ++ readBytes events)).foldl
      (processLine setup) state).flushOrphanRun.commitPending
        setup).Alike
      ((events.foldl (turn setup) state).conclude setup (.eof timing)) := by
  -- Up to the end of the input the turns and the whole lines agree.
  obtain ⟨alike, carry⟩ := turns_alike setup undisturbed state unfinished
  generalize events.foldl (turn setup) state = reached at alike carry
  have unfinished : newline ∉ reached.carry := by
    rw [carry]
    exact (not_mem_splitLines newline _).2
  -- The last turn is one without bytes, so it only flushes.
  obtain ⟨scanned, kept⟩ := turn_read setup reached [] lone
  rw [List.append_nil, splitLines_of_not_mem newline unfinished] at scanned kept
  have ended : reached.turn setup (.read [] timing) = (reached.scanCarry setup none).tryFlush
      timing := by
    simp [turn]
  rw [ended] at scanned kept
  unfold conclude wrapUp physicalLines
  simp only
  generalize (reached.scanCarry setup none).tryFlush timing = last at scanned kept
  have reachedLast := alike.trans scanned
  have carry : last.carry = (splitLines newline (state.carry ++ readBytes events)).2 :=
    kept.trans carry
  -- A carry that is left is a line without its newline.
  by_cases complete : last.carry = []
  · rw [← carry, if_pos complete, if_pos (.inl complete)]
    exact reachedLast.flushOrphanRun.commitPending setup
  · -- It is processed like any other line.
    rw [← carry, if_neg complete, if_neg (by simp [complete]), List.foldl_append]
    have processed := reachedLast.processLine setup last.carry
    have emptied : (last.processLine setup last.carry).Alike
        { last.processLine setup last.carry with carry := [] } :=
      ⟨rfl, .refl _⟩
    exact (processed.trans emptied).flushOrphanRun.commitPending setup

section Batches

/-- What a coalescer keeps under errors, rows and flushes, the loop keeps. -/
structure KeptByLoop (Inv : BatchCoalescer → Prop) : Prop where
  report : ∀ coalescer text, Inv coalescer → Inv (coalescer.report text)
  appendRow : ∀ coalescer firstLineNumber line, Inv coalescer →
    Inv (coalescer.appendRow firstLineNumber line)
  tryFlush : ∀ (coalescer : BatchCoalescer) now, Inv coalescer → Inv (coalescer.tryFlush now)

variable {Inv : BatchCoalescer → Prop} (state : StreamState σ)

/-- Closing a run of orphans keeps it. -/
theorem KeptByLoop.flushOrphanRun (kept : KeptByLoop Inv) (holds : Inv state.coalescer) :
    Inv state.flushOrphanRun.coalescer := by
  unfold StreamState.flushOrphanRun
  split
  · exact holds
  · exact kept.report _ _ holds

/-- Committing a record keeps it. -/
theorem KeptByLoop.commitPending (kept : KeptByLoop Inv) (holds : Inv state.coalescer) :
    Inv (state.commitPending setup).coalescer := by
  unfold StreamState.commitPending
  split
  · exact holds
  · refine kept.appendRow _ _ _ ?_
    -- The errors of the record are reported before its row.
    split_ifs
    all_goals
      first
        | exact holds
        | exact kept.report _ _ holds
        | exact kept.report _ _ (kept.report _ _ holds)

/-- A line keeps it. -/
theorem KeptByLoop.processLine (kept : KeptByLoop Inv) (holds : Inv state.coalescer)
    (line : Bytes) :
    Inv (state.processLine setup line).coalescer := by
  obtain ⟨⟨decode, lastContinuationTarget, grows, registered⟩, parse, timeColumns⟩ := setup
  unfold StreamState.processLine
  simp only
  -- A blank line ends a run of orphans.
  split
  · exact kept.flushOrphanRun { state with nextLineNumber := state.nextLineNumber + 1 } holds
  · generalize decode state.decoder (trimCarriageReturn line) state.keys = decoded
    obtain ⟨decoder, keys, result⟩ := decoded
    have flushed := kept.flushOrphanRun
      { state with nextLineNumber := state.nextLineNumber + 1, decoder, keys } holds
    cases result with
    | error text => exact kept.report _ _ flushed
    | skip => exact flushed
    -- A continuation grows the record that waits, or is counted as an orphan.
    | continued =>
      obtain ⟨source, coalescer, oldKeys, oldDecoder, hints, pending, number, carry, orphanRun⟩ :=
        state
      cases pending with
      | none => exact holds
      | some record => exact flushed
    -- A new record commits the one before.
    | emit values ownedArena =>
      exact kept.commitPending ⟨⟨decode, lastContinuationTarget, grows, registered⟩, parse,
        timeColumns⟩ _ flushed

/-- Lines keep it. -/
theorem KeptByLoop.processLines (kept : KeptByLoop Inv) (holds : Inv state.coalescer)
    (lines : List Bytes) :
    Inv (lines.foldl (StreamState.processLine setup) state).coalescer := by
  induction lines generalizing state with
  | nil => exact holds
  | cons line lines ih => exact ih _ (kept.processLine setup state holds line)

/-- Turns without a timeout keep it. -/
theorem KeptByLoop.turns (kept : KeptByLoop Inv) (holds : Inv state.coalescer)
    (events : List LoopEvent) :
    Inv (events.foldl (turn setup) state).coalescer := by
  induction events generalizing state with
  | nil => exact holds
  -- Each turn ends with a flush, and before it hands lines on or commits the pending one.
  | cons event events ih =>
    refine ih _ ?_
    cases event with
    | read text timing =>
      exact kept.tryFlush _ _ (kept.processLines setup { state with carry := state.carry ++ text }
        holds _)
    | idle agedOut timing =>
      refine kept.tryFlush _ _ ?_
      split
      · exact kept.commitPending setup state holds
      · exact holds

/-- The end of the stream keeps it. -/
theorem KeptByLoop.conclude (kept : KeptByLoop Inv) (holds : Inv state.coalescer)
    (timing : FlushTiming) :
    Inv (state.conclude setup (.eof timing)).coalescer := by
  have flushed : Inv ((state.scanCarry setup none).tryFlush timing).coalescer :=
    kept.tryFlush _ _ (kept.processLines setup state holds _)
  unfold StreamState.conclude wrapUp
  simp only
  generalize (state.scanCarry setup none).tryFlush timing = last at flushed
  -- The run ends with the line that was not ended, the orphans and the record that is held.
  refine kept.commitPending setup _ (kept.flushOrphanRun _ ?_)
  split
  · exact flushed
  · exact kept.processLine setup last flushed _

/-- The loop only leaves rows in a primed batch. -/
theorem primed_keptByLoop : KeptByLoop BatchCoalescer.Primed :=
  ⟨fun _ _ primed => primed, fun coalescer first line _ => coalescer.primed_appendRow first line,
    fun _ now primed => primed.tryFlush now⟩

end Batches

end StreamState

/-- What a streaming parse delivers: its rows with what they are read from, and its errors. -/
structure StreamedRows where
  rows : List LogLine
  source : StreamLineSource
  keys : KeyIndex
  errors : List Bytes

/-- The rows and errors of a run of the loop. -/
def streamedRows {σ : Type} (setup : StreamSetup σ) (start : StreamState σ)
    (events : List LoopEvent)
    (timing last : FlushTiming) : StreamedRows :=
  let (state, sink) := runStreamingParseLoop setup start events (.eof timing) last
  ⟨sink.flatMap (·.lines), state.source, state.keys, sink.flatMap (·.errors)⟩

/-- What is delivered at the end of the stream is what its lines leave behind. -/
theorem streamedRows_eq {σ : Type} (setup : StreamSetup σ) (keys : KeyIndex) (flushLines : Nat)
    (newKeyBaseline : Option Nat) (decoder : σ) (hints : List PromotionHints)
    {events : List LoopEvent}
    (undisturbed : ∀ event ∈ events, event.Undisturbed) {timing last : FlushTiming}
    (lone : timing.Lone)
    (alone : last.Lone) (final : StreamState σ)
    (processed : final = (((physicalLines (readBytes events)).foldl (StreamState.processLine setup)
      (.start keys flushLines newKeyBaseline decoder hints)).flushOrphanRun.commitPending setup)) :
    streamedRows setup (.start keys flushLines newKeyBaseline decoder hints) events timing last =
      ⟨final.coalescer.output .lines, final.source, final.keys,
        final.coalescer.output .errors⟩ := by
  subst processed
  -- The turns end alike with the loop over whole lines.
  have alike := StreamState.conclude_alike setup undisturbed lone
    (.start keys flushLines newKeyBaseline decoder hints)
    List.not_mem_nil
  -- The coalescer is primed if there are rows, so the last flush sends everything.
  have primed := StreamState.primed_keptByLoop.conclude setup _
    (StreamState.primed_keptByLoop.turns setup
    (.start keys flushLines newKeyBaseline decoder hints) (fun some_ => absurd rfl some_) events)
      timing
  have carry : (StreamState.start keys flushLines newKeyBaseline decoder hints).carry = [] := rfl
  rw [carry, List.nil_append] at alike
  unfold streamedRows runStreamingParseLoop
  simp only
  generalize (events.foldl (StreamState.turn setup)
    (.start keys flushLines newKeyBaseline decoder hints)).conclude setup
    (.eof timing) = reached at alike primed
  -- What is sent in the end is every line and every error.
  obtain ⟨rows, errors⟩ :=
    BatchCoalescer.finish_sends_all primed (last.moment reached.keys) reached.nextLineNumber
  obtain ⟨intervalReached, before, between⟩ := last
  obtain ⟨rfl, rfl⟩ : before = [] ∧ between = [] := alone
  rw [rows, errors, alike.content.lines, alike.content.errors]
  obtain ⟨rest, -⟩ := alike
  rw [rest]
  rfl

/-- However the bytes are cut into reads, and whenever the batches are sent, a stream delivers the
same rows and the same errors. -/
theorem streamedRows_cutAnywhere {σ : Type} (setup : StreamSetup σ) (keys : KeyIndex)
    (flushLines : Nat)
    (newKeyBaseline : Option Nat) (decoder : σ) (hints : List PromotionHints)
    {first second : List LoopEvent}
    (left : ∀ event ∈ first, event.Undisturbed) (right : ∀ event ∈ second, event.Undisturbed)
    (same : readBytes first = readBytes second) {timing last other final : FlushTiming}
    (lone : timing.Lone)
    (alone : last.Lone) (loneToo : other.Lone) (aloneToo : final.Lone) :
    streamedRows setup (.start keys flushLines newKeyBaseline decoder hints) first timing last =
      streamedRows setup (.start keys flushLines newKeyBaseline decoder hints) second other
        final := by
  rw [streamedRows_eq setup keys flushLines newKeyBaseline decoder hints left lone alone _ rfl,
    streamedRows_eq setup keys flushLines newKeyBaseline decoder hints right loneToo aloneToo _ rfl,
    same]

/-- A flush that is due, without foreign keys. -/
def dueFlush : FlushTiming := ⟨true, [], []⟩

/-- Two lines in three reads, with an idle turn between them, next to the same lines in one read. -/
theorem twoWords_cutAnywhere :
    streamedRows wordSetup (.start .empty 1 none () []) [.read (bytes "a\nb\n") calm] calm calm =
      streamedRows wordSetup (.start .empty 1 none () [])
        [.read (bytes "a") dueFlush, .idle false calm, .read (bytes "\nb") dueFlush,
          .read (bytes "\n") calm]
        dueFlush calm :=
  streamedRows_cutAnywhere wordSetup .empty 1 none () []
    (by simp [LoopEvent.Undisturbed, FlushTiming.Lone, calm])
    (by simp [LoopEvent.Undisturbed, FlushTiming.Lone, calm, dueFlush]) (by decide) ⟨rfl, rfl⟩ ⟨rfl,
      rfl⟩ ⟨rfl, rfl⟩
    ⟨rfl, rfl⟩

end Cuts

end Loglib
