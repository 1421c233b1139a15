import Loglib.Pipeline.NewKeys
import Loglib.Pipeline.StreamingLoop

/-! The streaming loop reports every new key: it never drains keys without sending the batch. -/

namespace Loglib

/-- The keys of some fields are among so many first ones. -/
def LineFields.Below (values : LineFields) (count : Nat) : Prop :=
  ∀ entry ∈ values.entries, entry.1 < count

/-- Joining continuation lines adds no key. -/
theorem extendContinuationTarget_below {values : LineFields} {count : Nat}
    (below : LineFields.Below values count)
    (ownedArena : Bytes) (target : Option KeyId) (continuationBytes mmapBytes : Bytes) :
    LineFields.Below (extendContinuationTarget values ownedArena target continuationBytes
      mmapBytes).2.1 count := by
  -- A slot is only ever written where there was one.
  have written {key : KeyId} {old : CompactLogValue} (found : values.lookup key = some old)
    (slot : CompactLogValue) :
      LineFields.Below (values.put key slot) count := by
    intro entry member
    obtain ⟨before, inside, same⟩ := SortedMap.mem_put_of_lookup found member
    exact same ▸ below before inside
  unfold extendContinuationTarget
  cases target with
  | none => exact below
  | some key =>
    simp only
    split
    · exact below
    · cases found : values.lookup key with
      | none => exact below
      | some slot =>
        cases slot with
        | ownedString offset length =>
          simp only
          split
          · exact written found _
          · exact written found _
        | monostate => exact written found _
        | mmapSlice offset length =>
          simp only
          split
          · exact below
          · exact written found _
        | _ => exact below

/-- The joined record has the keys of the record. -/
theorem StreamState.joinContinuations_below {record : PendingRecord} {count : Nat}
    (below : LineFields.Below record.compactValues count) :
    LineFields.Below (joinContinuations record).2.compactValues count := by
  have joined := extendContinuationTarget_below below record.ownedArena record.continuationTarget
    record.continuationBytes []
  -- With and without text to join, the keys are those of the record.
  unfold joinContinuations
  split
  · exact below
  · simp only
    split
    · exact joined
    · exact joined

/-- A promoted line has the keys it had. -/
theorem Promoted.registered {line promoted : LogLine} {count : Nat}
    (change : Promoted line promoted)
    (registered : line.Registered count) : promoted.Registered count := by
  cases change with
  | kept => exact registered
  | stamped key slot microseconds found raw => exact registered.setCompact found _

/-- Promoting the time columns adds no key. -/
theorem promoteColumns_registered (parse : TimestampParser) (sources : List LineSource)
    {count : Nat}
    (specs : List TimeColumnSpec) (hints : List PromotionHints) {line : LogLine}
    (registered : line.Registered count) :
    (promoteColumns parse sources specs hints line).1.Registered count := by
  -- Column by column; a promotion keeps the keys of the line.
  induction specs generalizing hints line with
  | nil => exact registered
  | cons spec specs ih =>
    cases hints with
    | nil => exact registered
    | cons own others =>
      exact ih others ((TimeColumnSpec.promoteLine_promoted parse spec sources own line).registered
        registered)

/-- No key is taken back until a flush has drained them. -/
theorem FlushTiming.moment_grows (timing : FlushTiming) (keys : KeyIndex) :
    keys.Grows (timing.moment keys).keysDrained :=
  (KeyIndex.registerAll_grows keys _).trans (KeyIndex.registerAll_grows _ _)

namespace StreamState

variable {σ : Type} (setup : StreamSetup σ) {state : StreamState σ} {baseline : Nat}

/-- The loop has reported the keys up to its cursor, and the pending record has registered keys. -/
structure Reports (baseline : Nat) (state : StreamState σ) : Prop where
  sent : state.coalescer.Reports baseline state.keys
  waiting : ∀ record ∈ state.pending, LineFields.Below record.compactValues state.keys.size

/-- An error is no key. -/
theorem Reports.report (reports : state.Reports baseline) (text : Bytes) :
    (state.report text).Reports baseline :=
  ⟨reports.sent.withPending rfl reports.sent.waiting, reports.waiting⟩

/-- An error that may be missing is no key either. -/
theorem Reports.reportUnless (reports : state.Reports baseline) (fine : Prop) [Decidable fine]
    (text : Bytes) :
    (if fine then state else state.report text).Reports baseline ∧
      (if fine then state else state.report text).keys = state.keys := by
  split
  · exact ⟨reports, rfl⟩
  · exact ⟨reports.report text, rfl⟩

/-- An orphan error is no key. -/
theorem Reports.flushOrphanRun (reports : state.Reports baseline) :
    state.flushOrphanRun.Reports baseline := by
  unfold StreamState.flushOrphanRun
  cases state.orphanRun with
  | none => exact reports
  | some run =>
    have reported := reports.report
    exact ⟨(reported _).sent, (reported []).waiting⟩

/-- A record with registered keys becomes a line with registered keys. -/
theorem Reports.appendRecord (reports : state.Reports baseline) {record : PendingRecord}
    (below : LineFields.Below record.compactValues state.keys.size) :
    (state.appendRecord setup record).Reports baseline := by
  have primed := reports.sent.prime record.startLineNumber
  refine ⟨primed.withPending rfl fun line member => ?_, reports.waiting⟩
  rcases List.mem_append.mp member with old | new
  · exact primed.waiting line old
  · rw [List.mem_singleton.mp new]
    exact promoteColumns_registered setup.parse _ setup.timeColumns state.hints below

/-- Orphan errors register no key. -/
@[simp] theorem flushOrphanRun_keys (state : StreamState σ) :
    state.flushOrphanRun.keys = state.keys := by
  unfold StreamState.flushOrphanRun
  cases state.orphanRun <;> rfl

/-- Committing registers no key. -/
@[simp] theorem commitPending_keys (state : StreamState σ) :
    (state.commitPending setup).keys = state.keys := by
  unfold StreamState.commitPending
  cases state.pending with
  | none => rfl
  | some record =>
    simp only [appendRecord]
    split <;> split <;> rfl

/-- Committing the pending record keeps the report. -/
theorem Reports.commitPending (reports : state.Reports baseline) :
    (state.commitPending setup).Reports baseline := by
  unfold StreamState.commitPending
  cases found : state.pending with
  | none => exact reports
  | some record =>
    have below := joinContinuations_below (reports.waiting record found)
    have emptied : { state with pending := none }.Reports baseline :=
      ⟨reports.sent, fun record there => nomatch there⟩
    -- Both errors may come in front of the line, and neither touches the keys.
    obtain ⟨spliced, sameKeys⟩ := emptied.reportUnless ((joinContinuations record).1 = .ok)
      (spliceFailure record.startLineNumber (joinContinuations record).1)
    obtain ⟨counted, stillSame⟩ := spliced.reportUnless (record.droppedContinuationLines = 0)
      (droppedLines record.startLineNumber record.droppedContinuationLines)
    refine counted.appendRecord setup ?_
    rw [stillSame, sameKeys]
    exact below

/-- More keys, same report. -/
theorem Reports.grow (reports : state.Reports baseline) (decoder : σ) {keys : KeyIndex}
    (grows : state.keys.Grows keys) :
    { state with decoder, keys }.Reports baseline :=
  ⟨reports.sent.grow grows, fun record there entry member =>
    (reports.waiting record there entry member).trans_le (Interner.Grows.size_le grows)⟩

/-- A flush keeps the report. -/
theorem Reports.tryFlush (reports : state.Reports baseline) (timing : FlushTiming) :
    (state.tryFlush timing).Reports baseline := by
  have grown := reports.grow state.decoder (timing.moment_grows state.keys)
  exact ⟨grown.sent.tryFlush, grown.waiting⟩

/-- A line keeps the report. -/
theorem Reports.processLine (reports : state.Reports baseline) (line : Bytes) :
    (state.processLine setup line).Reports baseline := by
  have numbered : { state with nextLineNumber := state.nextLineNumber + 1 }.Reports baseline :=
    ⟨reports.sent, reports.waiting⟩
  -- The decoder's two promises mention its step, so it is taken apart first.
  obtain ⟨⟨decode, lastContinuationTarget, grows, registered⟩, parse, timeColumns⟩ := setup
  unfold StreamState.processLine
  simp only
  split
  · -- A blank line changes the blanks of the pending record, not its fields.
    have flushed := numbered.flushOrphanRun
    refine ⟨flushed.sent, fun record there => ?_⟩
    obtain ⟨before, pending, rfl⟩ := Option.map_eq_some_iff.mp there
    split
    · exact flushed.waiting before pending
    · exact flushed.waiting before pending
  · have grown := grows state.decoder (trimCarriageReturn line) state.keys
    have below := registered state.decoder (trimCarriageReturn line) state.keys
    generalize decode state.decoder (trimCarriageReturn line) state.keys = decoded at grown below ⊢
    obtain ⟨decoder, keys, result⟩ := decoded
    have reportsNow := numbered.grow decoder grown
    cases result with
    | error text => exact reportsNow.flushOrphanRun.report _
    | skip => exact reportsNow.flushOrphanRun
    | continued =>
      have flushed := reportsNow.flushOrphanRun
      have fields := reportsNow.waiting
      obtain ⟨source, coalescer, keysBefore, decoderBefore, hints, pending, number, carry,
        orphanRun⟩ := state
      cases pending with
      | none => exact ⟨reportsNow.sent, reportsNow.waiting⟩
      | some record =>
        refine ⟨flushed.sent, fun continued there => ?_⟩
        obtain rfl := Option.some.inj there
        have same : (continuePending record (trimCarriageReturn line)).compactValues =
            record.compactValues := by
          unfold continuePending
          split <;> rfl
        rw [flushOrphanRun_keys, same]
        exact fields record rfl
    | emit values ownedArena =>
      have committed := reportsNow.flushOrphanRun.commitPending
        ⟨⟨decode, lastContinuationTarget, grows, registered⟩, parse, timeColumns⟩
      refine ⟨committed.sent, fun record there => ?_⟩
      obtain rfl := Option.some.inj there
      rw [commitPending_keys, flushOrphanRun_keys]
      exact below values ownedArena rfl

/-- Lines keep the report, one by one. -/
theorem Reports.scanCarry (reports : state.Reports baseline) (budget : Option Nat) :
    (state.scanCarry setup budget).Reports baseline := by
  have scanned (lines : List Bytes) : (lines.foldl (StreamState.processLine setup) state).Reports
      baseline := by
    induction lines generalizing state with
    | nil => exact reports
    | cons line lines ih => exact ih (reports.processLine setup line)
  exact ⟨(scanned _).sent, (scanned _).waiting⟩

/-- A turn of the loop keeps the report. -/
theorem Reports.turn (reports : state.Reports baseline) (event : LoopEvent) :
    (state.turn setup event).Reports baseline := by
  -- A read grows the carry and scans it, an idle turn commits what has waited too long; both end
  -- with a flush.
  cases event with
  | read text timing =>
    have carried : { state with carry := state.carry ++ text }.Reports baseline :=
      ⟨reports.sent, reports.waiting⟩
    exact (carried.scanCarry setup none).tryFlush timing
  | idle agedOut timing =>
    refine Reports.tryFlush ?_ timing
    cases agedOut
    · exact reports
    · exact reports.commitPending setup

/-- The last record keeps the report. -/
theorem Reports.wrapUp (reports : state.Reports baseline) (stopRequested : Bool) :
    (state.wrapUp setup stopRequested).Reports baseline := by
  unfold StreamState.wrapUp
  -- A stop leaves the carry as it is, the end of the stream parses it as a last line.
  split
  · exact reports.flushOrphanRun.commitPending setup
  · have processed := reports.processLine setup state.carry
    have emptied : { state.processLine setup state.carry with carry := [] }.Reports baseline :=
      ⟨processed.sent, processed.waiting⟩
    exact emptied.flushOrphanRun.commitPending setup

/-- The end of the loop keeps the report. -/
theorem Reports.conclude (reports : state.Reports baseline) (ending : LoopEnd) :
    (state.conclude setup ending).Reports baseline := by
  -- All three endings scan what is there and wrap up.
  cases ending with
  | eof timing => exact ((reports.scanCarry setup none).tryFlush timing).wrapUp setup false
  | stopped => exact reports.wrapUp setup true
  | stoppedInScan text budget timing =>
    have carried : { state with carry := state.carry ++ text }.Reports baseline :=
      ⟨reports.sent, reports.waiting⟩
    exact ((carried.scanCarry setup (some budget)).tryFlush timing).wrapUp setup true

/-- Turn by turn the loop keeps the report. -/
theorem Reports.turns (reports : state.Reports baseline) (events : List LoopEvent) :
    (events.foldl (StreamState.turn setup) state).Reports baseline := by
  induction events generalizing state with
  | nil => exact reports
  | cons event events ih => exact ih (reports.turn setup event)

end StreamState

/-- A coalescer that starts at the baseline has nothing to report yet. -/
theorem BatchCoalescer.start_reports (keys : KeyIndex) (flushLines : Nat)
    {newKeyBaseline : Option Nat}
    (below : newKeyBaseline.getD keys.size ≤ keys.size) :
    (BatchCoalescer.start keys flushLines newKeyBaseline).Reports
      (newKeyBaseline.getD keys.size) keys := by
  refine ⟨rfl, le_rfl, below, ?_, fun front batch back cut => ?_, fun line member => nomatch member⟩
  · simp [start, reportedKeys]
  · exact absurd cut (by simp [start])

/-- The streaming loop reports every name, in time, whatever comes in and however it ends. -/
theorem runStreamingParseLoop_reportsKeys {σ : Type} (setup : StreamSetup σ) (keys : KeyIndex)
    (flushLines : Nat)
    {newKeyBaseline : Option Nat} (below : newKeyBaseline.getD keys.size ≤ keys.size) (decoder : σ)
    (hints : List PromotionHints) (events : List LoopEvent) (ending : LoopEnd)
    (last : FlushTiming) :
    ReportsKeys (newKeyBaseline.getD keys.size)
      (runStreamingParseLoop setup (.start keys flushLines newKeyBaseline decoder hints) events
        ending last).1.keys
      (runStreamingParseLoop setup (.start keys flushLines newKeyBaseline decoder hints) events
        ending last).2 := by
  have start : (StreamState.start keys flushLines newKeyBaseline decoder hints).Reports
      (newKeyBaseline.getD keys.size) :=
    ⟨BatchCoalescer.start_reports keys flushLines below, fun record there => nomatch there⟩
  have ended := (start.turns setup events).conclude setup ending
  exact BatchCoalescer.Reports.finish (ended.sent.grow (last.moment_grows _)) _

/-- The static pipeline reports every name, in time, exactly if no batch loses names; the streaming
loop always does. -/
theorem parse_reportsKeys_iff (prefersUncoalesced : Bool) (file : LogFile) (keys : KeyIndex)
    (flushLines : Nat)
    (newKeyBaseline : Option Nat) (below : newKeyBaseline.getD keys.size ≤ keys.size)
    (inputs : List StageInput)
    (tail last : FlushMoment) (history : PipelineState.KeysGrow keys inputs tail last) {σ : Type}
    (setup : StreamSetup σ) (decoder : σ) (hints : List PromotionHints) (events : List LoopEvent)
    (ending : LoopEnd)
    (timing : FlushTiming) :
    (ReportsKeys (newKeyBaseline.getD keys.size) last.keysDrained
        (PipelineState.finish prefersUncoalesced (PipelineState.runStageC prefersUncoalesced
          (.start file keys flushLines newKeyBaseline) inputs) tail last).sink ↔
      CleanRun (PipelineState.step prefersUncoalesced)
        (fun state input => ¬PipelineState.LosesKeys prefersUncoalesced state input)
        (.start file keys flushLines newKeyBaseline) inputs) ∧
    ReportsKeys (newKeyBaseline.getD keys.size)
      (runStreamingParseLoop setup (.start keys flushLines newKeyBaseline decoder hints) events
        ending timing).1.keys
      (runStreamingParseLoop setup (.start keys flushLines newKeyBaseline decoder hints) events
        ending timing).2 :=
  ⟨PipelineState.runStageC_reportsKeys_iff (BatchCoalescer.start_reports keys flushLines below)
      (fun _ there => nomatch there) history,
    runStreamingParseLoop_reportsKeys setup keys flushLines below decoder hints events
      ending timing⟩

/-- The index with the key `a`. -/
def keyA : KeyIndex := (KeyIndex.empty.getOrInsert (bytes "a")).1

/-- A moment after the key `a` was registered. -/
def withA : FlushMoment := ⟨false, keyA, keyA⟩

/-- The file `a=x` in one batch: the record may go on and is held back. -/
def oneRecordInputs : List StageInput := [⟨withA, PipelineState.recordBatch [4]⟩]

/-- Two records in one batch. -/
def twoRecordInputs : List StageInput :=
  [⟨withA, { PipelineState.recordBatch [4, 8] with
    lines := [.ofField 0 0 0 (.mmapSlice 2 1), .ofField 0 1 0 (.mmapSlice 6 1)] }⟩]

/-- Before and after the key `a`. -/
theorem empty_grows_keyA : KeyIndex.empty.Grows keyA := KeyIndex.getOrInsert_grows _ _

/-- A decoder of bare words: each line is a key without a value. -/
def wordDecode (line : Bytes) (keys : KeyIndex) : Unit × KeyIndex × LineDecodeResult :=
  ((), (keys.getOrInsert line).1,
    .emit ⟨[((keys.getOrInsert line).2, .monostate)], List.pairwise_singleton _ _⟩ [])

/-- The keys of what is decoded are registered. -/
theorem wordDecode_registered (_state : Unit) (line : Bytes) (keys : KeyIndex) (values : LineFields)
    (arena : Bytes)
    (emits : (wordDecode line keys).2.2 = .emit values arena) :
    ∀ entry ∈ values.entries, entry.1 < (wordDecode line keys).2.1.size := by
  obtain ⟨rfl, -⟩ := LineDecodeResult.emit.inj emits
  intro entry member
  obtain rfl := List.mem_singleton.mp member
  exact Interner.find_lt_size (KeyIndex.find_getOrInsert_self keys line)

/-- The loop on bare words. -/
def wordSetup : StreamSetup Unit :=
  ⟨⟨fun _ => wordDecode, fun _ => none, fun _ line keys => keys.getOrInsert_grows line,
    wordDecode_registered⟩,
    fun _ _ => none, []⟩

/-- A flush before which no other thread registers a key. -/
def calm : FlushTiming := ⟨false, [], []⟩

/-- Two records with the same key, which both paths report once. -/
theorem twoRecordInputs_reportKeys :
    ReportsKeys 0 keyA
        (PipelineState.finish true (PipelineState.runStageC true
          (.start (.ofData (bytes "a=x\na=y\n")) .empty 1000 none) twoRecordInputs) withA
            withA).sink ∧
      ReportsKeys 0
        (runStreamingParseLoop wordSetup (.start .empty 1000 none () []) [.read (bytes "a\n") calm]
          (.eof calm) calm).1.keys
        (runStreamingParseLoop wordSetup (.start .empty 1000 none () []) [.read (bytes "a\n") calm]
          (.eof calm) calm).2 := by
  have both := parse_reportsKeys_iff true (.ofData (bytes "a=x\na=y\n")) .empty 1000 none
    (Nat.le_refl _) twoRecordInputs
    withA withA ⟨empty_grows_keyA, .refl _, by decide, .refl _, .refl _, .refl _⟩ wordSetup () []
    [.read (bytes "a\n") calm] (.eof calm) calm
  -- Nothing is lost: the first record is content of its own.
  refine ⟨both.1.mpr ⟨fun loses => ?_, fun _ _ => trivial⟩, both.2⟩
  rcases loses.2.1.2.2.2 with ⟨nothing, -⟩ | ⟨-, -, single, -⟩
  · exact absurd nothing (List.cons_ne_nil _ _)
  · exact absurd single (by decide)

/-- A file of one record loses its key when the sink wants every batch as it is. -/
theorem oneRecordInputs_loseKey :
    PipelineState.KeysGrow .empty oneRecordInputs withA withA ∧
      ¬ReportsKeys 0 keyA
        (PipelineState.finish true (PipelineState.runStageC true
          (.start (.ofData (bytes "a=x\n")) .empty 1000 none) oneRecordInputs) withA withA).sink :=
  ⟨⟨empty_grows_keyA, .refl _, by decide, .refl _, .refl _, .refl _⟩, fun reports =>
    absurd reports.all (by decide)⟩

end Loglib
