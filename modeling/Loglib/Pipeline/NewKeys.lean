import Loglib.Pipeline.KeyReports
import Loglib.Pipeline.LineTable

/-! The static pipeline reports every new key, unless it drains them into a batch that it
does not send. -/

namespace Loglib

/-- A splice adds no key. -/
theorem spliceCrossBatchContinuation_registered {heldLine : LogLine} {count : Nat}
    (registered : heldLine.Registered count) (file : LogFile) (targetKey : Option KeyId)
    (leading : Bytes) :
    (spliceCrossBatchContinuation heldLine file targetKey leading).2.1.Registered count := by
  unfold spliceCrossBatchContinuation appendJoined
  -- Only the slot of the target key changes, and the line had that key before.
  cases targetKey with
  | none => exact registered
  | some key =>
    simp only
    split
    · exact registered
    · cases found : heldLine.findCompact key with
      | none => exact registered
      | some slot =>
        cases slot with
        | monostate => exact registered.setCompact found _
        | ownedString offset length =>
          simp only
          split
          · exact registered.setCompact found _
          · exact registered.setCompact found _
        | mmapSlice offset length =>
          simp only
          split
          · exact registered
          · exact registered.setCompact found _
        | _ => exact registered

namespace PipelineState

/-- Adopting lines changes no key. -/
theorem adoptLines_registered (state : PipelineState) {parsed : ParsedPipelineBatch} {count : Nat}
    (registered : ∀ line ∈ parsed.lines, line.Registered count) :
    ∀ line ∈ (state.adoptLines parsed).2.lines, line.Registered count := by
  unfold adoptLines
  simp only
  -- A line is renumbered and its slots are moved, its keys stay.
  split
  · intro line member
    obtain ⟨before, inBatch, rfl⟩ := List.mem_map.mp member
    exact registered before inBatch
  · intro line member
    obtain ⟨shifted, inShifted, rfl⟩ := List.mem_map.mp member
    obtain ⟨before, inBatch, rfl⟩ := List.mem_map.mp inShifted
    exact LogLine.Registered.rebase (registered before inBatch) _

/-- The held record has registered keys. -/
def HeldRegistered (state : PipelineState) (count : Nat) : Prop :=
  ∀ held ∈ state.held, held.line.Registered count

/-- Splicing changes no key. -/
theorem spliceLeading_registered (state : PipelineState) {count : Nat}
    (registered : state.HeldRegistered count)
    (parsed : ParsedPipelineBatch) : (state.spliceLeading parsed).1.HeldRegistered count := by
  unfold spliceLeading
  split
  · exact registered
  · cases found : state.held with
    | none => exact registered
    -- A splice changes values only, and the keys of the held line are registered.
    | some held =>
      intro extended there
      have line := spliceCrossBatchContinuation_registered (registered held found) state.file
        held.continuationTargetKeyId parsed.leadingContinuationBytes
      simp only [Option.mem_def, Option.some.injEq] at there
      subst there
      split <;> exact line

/-- The last record of a batch has the keys of the batch. -/
theorem openTail_registered (state : PipelineState) {parsed : ParsedPipelineBatch} {count : Nat}
    (registered : ∀ line ∈ parsed.lines, line.Registered count) :
    (∀ held ∈ (state.openTail parsed).1, held.line.Registered count) ∧
      ∀ line ∈ (state.openTail parsed).2.lines, line.Registered count := by
  unfold openTail
  -- The last line is held back when it may go on, and delivered with the others when not.
  cases last : parsed.lines.getLast? with
  | none => exact ⟨fun held there => (nomatch there), registered⟩
  | some tailLine =>
    simp only
    split
    · exact ⟨fun held there => (nomatch there), registered⟩
    · refine ⟨fun held there => ?_, fun line member =>
        registered line (List.mem_of_mem_dropLast member)⟩
      obtain rfl := Option.some.inj there
      exact registered tailLine (List.mem_of_getLast? last)

/-- What is released and pended keeps the report. -/
theorem pendReleased_reports {baseline : Nat} {keys : KeyIndex} {coalescer : BatchCoalescer}
    (reports : coalescer.Reports baseline keys) {released : Option HeldTail}
    (registered : ∀ held ∈ released, held.line.Registered keys.size) :
    (pendReleased coalescer released).Reports baseline keys := by
  -- The released record joins what is waiting.
  cases released with
  | none => exact reports
  | some held =>
    have primed := reports.prime held.absoluteLineNumber
    refine primed.withPending rfl fun line member => ?_
    rcases List.mem_append.mp member with old | new
    · exact primed.waiting line old
    · exact List.mem_singleton.mp new ▸ registered held rfl

/-- A batch for a sink that wants larger batches keeps the report. -/
theorem deliverCoalesced_reports {baseline : Nat} {now : FlushMoment} {coalescer : BatchCoalescer}
    (reports : coalescer.Reports baseline now.keysDrained) {released : Option HeldTail}
    {parsed : ParsedPipelineBatch}
    (held : ∀ held ∈ released, held.line.Registered now.keysDrained.size)
    (lines : ∀ line ∈ parsed.lines, line.Registered now.keysDrained.size)
    (spans : List MultiLineRecordSpan) (nextLineNumber : Nat) :
    (deliverCoalesced coalescer now released parsed spans nextLineNumber).Reports baseline
      now.keysDrained := by
  have pended := pendReleased_reports reports held
  unfold deliverCoalesced
  simp only
  -- The first record of a batch primes the coalescer with its place, and priming reports nothing.
  have primed : (if parsed.lines = [] then pendReleased coalescer released
      else (pendReleased coalescer released).prime
        (nextLineNumber + parsed.leadingContinuationLineCount)).Reports
      baseline now.keysDrained := by
    split
    · exact pended
    · exact pended.prime _
  refine BatchCoalescer.Reports.tryFlush ?_
  generalize (if parsed.lines = [] then pendReleased coalescer released
    else (pendReleased coalescer released).prime
      (nextLineNumber + parsed.leadingContinuationLineCount)) = before
    at primed ⊢
  refine primed.withPending rfl fun line member => ?_
  -- The lines that wait were reported before, and the new ones are registered by now.
  rcases List.mem_append.mp member with old | new
  · exact primed.waiting line old
  · exact lines line new

/-- What is pended does not make up for names that were passed. -/
theorem pendReleased_behind {baseline : Nat} {keys : KeyIndex} {coalescer : BatchCoalescer}
    (behind : coalescer.Behind baseline keys) (released : Option HeldTail) :
    (pendReleased coalescer released).Behind baseline keys := by
  cases released with
  | none => exact behind
  | some held => exact (behind.prime held.absoluteLineNumber).withPending rfl

/-- A batch for a sink that wants larger batches does not make up for names that were passed. -/
theorem deliverCoalesced_behind {baseline : Nat} {now : FlushMoment} {coalescer : BatchCoalescer}
    (behind : coalescer.Behind baseline now.keysDrained) (released : Option HeldTail)
    (parsed : ParsedPipelineBatch)
    (spans : List MultiLineRecordSpan) (nextLineNumber : Nat) :
    (deliverCoalesced coalescer now released parsed spans nextLineNumber).Behind baseline
      now.keysDrained := by
  have pended := pendReleased_behind behind released
  unfold deliverCoalesced
  refine BatchCoalescer.Behind.tryFlush (BatchCoalescer.Behind.withPending ?_ rfl)
  split
  · exact pended
  · exact pended.prime _

/-- A batch has something to send, apart from keys. -/
def HasContent (released : Option HeldTail) (parsed : ParsedPipelineBatch)
    (spans : List MultiLineRecordSpan) : Prop :=
  released ≠ none ∨ parsed.lines ≠ [] ∨ parsed.errors ≠ [] ∨
    parsed.localLineOffsets ≠ [] ∨ spans ≠ []

/-- A sink that wants every batch gets the keys with the content, and loses them without. -/
theorem deliverUncoalesced_cases (coalescer : BatchCoalescer) (keysDrained : KeyIndex)
    (released : Option HeldTail)
    (parsed : ParsedPipelineBatch) (spans : List MultiLineRecordSpan) (nextLineNumber : Nat) :
    (HasContent released parsed spans ∧ ∃ out : SinkBatch, out.newKeys = [] ∧
        out.lines = (released.map (·.line)).toList ++ parsed.lines ∧
        deliverUncoalesced coalescer keysDrained released parsed spans nextLineNumber =
          (coalescer.drained keysDrained).onBatch (coalescer.drainNewKeysInto keysDrained out)) ∨
      ¬HasContent released parsed spans ∧
        deliverUncoalesced coalescer keysDrained released parsed spans nextLineNumber =
          coalescer.drained keysDrained := by
  -- The batch that is delivered, before the new keys are put into it.
  let content : SinkBatch :=
    { withReleased released (appendParsed .empty parsed spans (nextLineNumber - 1)) with
      firstLineNumber := (released.map (·.absoluteLineNumber)).getD nextLineNumber }
  have same : (content.lines ≠ [] ∨ content.errors ≠ [] ∨ content.localLineOffsets ≠ [] ∨
      content.multiLineSpans ≠ []) ↔ HasContent released parsed spans := by
    cases released with
    | none => simp [content, withReleased, appendParsed, SinkBatch.empty, HasContent]
    | some held => simp [content, withReleased, appendParsed, SinkBatch.empty, HasContent]
  -- A batch without content is not sent, and only the keys are drained.
  by_cases some_ : HasContent released parsed spans
  · refine .inl ⟨some_, content, ?_, ?_, if_pos (same.mpr some_)⟩
    · cases released <;> rfl
    · cases released <;> rfl
  · exact .inr ⟨some_, if_neg (mt same.mp some_)⟩

/-- A splice works or not by the file's bytes, whatever text its arena holds. -/
theorem splice_outcome_congr {first second : LogFile} (same : first.data = second.data)
    (line : LogLine)
    (target : Option KeyId) (leading : Bytes) :
    (spliceCrossBatchContinuation line first target leading).1 =
      (spliceCrossBatchContinuation line second target leading).1 := by
  unfold spliceCrossBatchContinuation appendJoined
  -- The outcome depends on the slot and its bytes, and those lie in the same data.
  cases target with
  | none => rfl
  | some key =>
    simp only
    split
    · rfl
    · cases line.findCompact key with
      | none => rfl
      | some slot =>
        cases slot with
        | ownedString offset length =>
          simp only
          split <;> split <;> rfl
        -- A slice is peeked from the data of the file, which are the same.
        | mmapSlice offset length =>
          have peek : (CompactLogValue.mmapSlice offset length).peekStringView
            (some (.file first)) line.lineId =
              (CompactLogValue.mmapSlice offset length).peekStringView (some (.file second))
                line.lineId := by
            simp [CompactLogValue.peekStringView, LineSource.resolveMmapBytes, same]
          simp only [peek]
          split <;> rfl
        | _ => rfl

/-- A batch from which nothing is left to send: no line, no offset, no error and no span once the
leading lines have gone to the held record and the only open record is held back. -/
def Silent (state : PipelineState) (parsed : ParsedPipelineBatch) : Prop :=
  parsed.errors = [] ∧ parsed.completedMultiLineSpans = [] ∧
    (parsed.leadingContinuationBytes = [] ∨ ∃ held ∈ state.held,
      (spliceCrossBatchContinuation held.line state.file held.continuationTargetKeyId
        parsed.leadingContinuationBytes).1 = .ok) ∧
    (parsed.lines = [] ∧ parsed.localLineOffsets.drop (state.movedCount parsed) = [] ∨
      state.held = none ∧ parsed.lastRecordOpenForContinuation = true ∧ parsed.lines.length = 1 ∧
        parsed.localLineOffsets.length ≤ 1)

/-- The errors of a batch, with one more where its leading lines find no text to continue. -/
theorem spliceLeading_errors (state : PipelineState) (parsed : ParsedPipelineBatch) :
    (state.spliceLeading parsed).2.errors = [] ↔ parsed.errors = [] ∧
      (parsed.leadingContinuationBytes = [] ∨ ∃ held ∈ state.held,
        (spliceCrossBatchContinuation held.line state.file held.continuationTargetKeyId
          parsed.leadingContinuationBytes).1 = .ok) := by
  unfold spliceLeading
  -- The only error that is added is the one of a splice that did not fit.
  by_cases nothing : parsed.leadingContinuationBytes = []
  · simp [nothing]
  · cases found : state.held with
    | none => simp [nothing]
    | some held =>
      simp only [nothing, if_false, List.append_eq_nil_iff, false_or, Option.mem_def,
        Option.some.injEq,
        exists_eq_left']
      refine and_congr_right fun _ => ?_
      cases (spliceCrossBatchContinuation held.line state.file held.continuationTargetKeyId
        parsed.leadingContinuationBytes).1 <;> simp [spliceError]

/-- The rest of the splice: the held record stays, and so do the flags of the batch. -/
theorem spliceLeading_frame (state : PipelineState) (parsed : ParsedPipelineBatch) :
    ((state.spliceLeading parsed).1.held = none ↔ state.held = none) ∧
      (state.spliceLeading parsed).2.lastRecordOpenForContinuation =
        parsed.lastRecordOpenForContinuation := by
  unfold spliceLeading
  split
  · exact ⟨Iff.rfl, rfl⟩
  · cases found : state.held with
    | none => simp [found]
    | some held => simp

/-- What is left of a batch once its open record is held back. -/
theorem openTail_left (state : PipelineState) (parsed : ParsedPipelineBatch) :
    (state.openTail parsed).2.errors = parsed.errors ∧
      ((state.openTail parsed).2.lines = [] ∧ (state.openTail parsed).2.localLineOffsets = [] ↔
        parsed.lines = [] ∧ parsed.localLineOffsets = [] ∨
          parsed.lastRecordOpenForContinuation = true ∧ parsed.lines.length = 1 ∧
            parsed.localLineOffsets.length ≤ 1) := by
  unfold openTail
  -- Only a record that may go on is taken out of the batch.
  rcases List.eq_nil_or_concat parsed.lines with none_ | ⟨front, line, some_⟩
  · simp [none_]
  · cases closed : parsed.lastRecordOpenForContinuation
    · simp [some_]
    · have few : parsed.localLineOffsets.dropLast = [] ↔ parsed.localLineOffsets.length ≤ 1 := by
        rw [← List.length_eq_zero_iff, List.length_dropLast]
        omega
      simp [some_, few]

/-- The serial stage on a batch, with what it releases, what it holds back and what is
left named. -/
theorem stageC_parts (prefersUncoalesced : Bool) (state : PipelineState) (now : FlushMoment)
    (parsed : ParsedPipelineBatch) :
    ∃ (middle : PipelineState) (released newHeld : Option HeldTail) (left : ParsedPipelineBatch),
      middle.coalescer = state.coalescer ∧
      (stageC prefersUncoalesced state now parsed).coalescer =
          (if prefersUncoalesced then
            deliverUncoalesced state.coalescer now.keysDrained released left
              (parsed.completedMultiLineSpans.map (·.shift state.lineNumberDelta))
                middle.nextLineNumber
          else deliverCoalesced state.coalescer now released left
            (parsed.completedMultiLineSpans.map (·.shift state.lineNumberDelta))
              middle.nextLineNumber) ∧
        (stageC prefersUncoalesced state now parsed).held = (if parsed.lines ≠ [] then newHeld
          else middle.held) ∧
        (HasContent released left
          (parsed.completedMultiLineSpans.map (·.shift state.lineNumberDelta)) ↔
          ¬Silent state parsed) ∧
        ∀ count, state.HeldRegistered count → (∀ line ∈ parsed.lines, line.Registered count) →
          (∀ held ∈ released, held.line.Registered count) ∧
            (∀ held ∈ newHeld, held.line.Registered count) ∧
            middle.HeldRegistered count ∧ ∀ line ∈ left.lines, line.Registered count := by
  obtain ⟨file, lines, adopted, data, sameLength⟩ := state.adoptLines_frame parsed
  have sameEmpty : lines = [] ↔ parsed.lines = [] := by
    rw [← List.length_eq_zero_iff, sameLength, List.length_eq_zero_iff]
  have moved : ({ state with file } : PipelineState).movedCount { parsed with lines } =
      state.movedCount parsed := rfl
  obtain ⟨-, offsets, splicedLines, coalescer, -⟩ :=
    spliceLeading_offsets { state with file } { parsed with lines }
  have errors := spliceLeading_errors { state with file } { parsed with lines }
  obtain ⟨heldNone, open_⟩ := spliceLeading_frame { state with file } { parsed with lines }
  have keepsHeld := fun (count : Nat) (registered : state.HeldRegistered count) =>
    spliceLeading_registered { state with file } registered { parsed with lines }
  have keepsLines := fun (count : Nat)
    (registered : ∀ line ∈ parsed.lines, line.Registered count) =>
    adoptLines_registered state registered
  unfold stageC
  simp only [adopted] at keepsLines ⊢
  generalize spliceLeading { state with file } { parsed with lines } = spliced at *
  obtain ⟨middle, batch⟩ := spliced
  obtain ⟨leftErrors, leftEmpty⟩ := openTail_left middle batch
  have tailLines := fun (count : Nat) (registered : ∀ line ∈ batch.lines, line.Registered count) =>
    openTail_registered middle registered
  simp only
    at offsets splicedLines coalescer errors heldNone open_ keepsHeld leftErrors leftEmpty tailLines ⊢
  generalize openTail middle batch = opened at *
  obtain ⟨newHeld, left⟩ := opened
  simp only at leftErrors leftEmpty tailLines ⊢
  refine ⟨middle, if batch.lines ≠ [] then middle.held else none, newHeld, left, coalescer,
    by rw [coalescer], ?_,
    ?_, fun count heldBefore linesBefore => ?_⟩
  · simp only [splicedLines, ne_eq, sameEmpty]
  · have outcome : ∀ held : HeldTail,
      (spliceCrossBatchContinuation held.line file held.continuationTargetKeyId
        parsed.leadingContinuationBytes).1 = (spliceCrossBatchContinuation held.line state.file
          held.continuationTargetKeyId parsed.leadingContinuationBytes).1 :=
      fun held => splice_outcome_congr data held.line _ _
    simp only [outcome] at errors
    rw [open_, splicedLines, offsets, moved, sameEmpty, sameLength] at leftEmpty
    rw [← not_iff_not, not_not]
    -- A batch without records releases nothing, and one with a record releases what was held.
    have sealed : (if batch.lines ≠ [] then middle.held else none) = none ↔
        parsed.lines = [] ∨ state.held = none := by
      rw [splicedLines]
      by_cases empty : parsed.lines = []
      · simp [empty, sameEmpty]
      · simp [empty, sameEmpty, heldNone]
    simp only [HasContent, Silent, not_or, not_not, ne_eq, List.map_eq_nil_iff, leftErrors, errors]
    simp only [ne_eq] at sealed
    rw [sealed]
    constructor
    · rintro ⟨quiet, noLines, ⟨noErrors, spliced⟩, noOffsets, noSpans⟩
      refine ⟨noErrors, noSpans, spliced, ?_⟩
      rcases leftEmpty.mp ⟨noLines, noOffsets⟩ with nothing | ⟨opens, single, few⟩
      · exact .inl nothing
      · have fresh : parsed.lines ≠ [] := by
          intro none_
          simp [none_] at single
        have bare := quiet.resolve_left fresh
        refine .inr ⟨bare, opens, single, ?_⟩
        simpa [movedCount, bare] using few
    · rintro ⟨noErrors, noSpans, spliced, nothing | ⟨bare, opens, single, few⟩⟩
      · obtain ⟨noLines, noOffsets⟩ := leftEmpty.mpr (.inl nothing)
        exact ⟨.inl nothing.1, noLines, ⟨noErrors, spliced⟩, noOffsets, noSpans⟩
      · have fits : (parsed.localLineOffsets.drop (state.movedCount parsed)).length ≤ 1 := by
          simpa [movedCount, bare] using few
        obtain ⟨noLines, noOffsets⟩ := leftEmpty.mpr (.inr ⟨opens, single, fits⟩)
        exact ⟨.inr bare, noLines, ⟨noErrors, spliced⟩, noOffsets, noSpans⟩
  · have held := keepsHeld count heldBefore
    have batchLines : ∀ line ∈ batch.lines, line.Registered count := by
      rw [splicedLines]
      exact keepsLines count linesBefore
    obtain ⟨newRegistered, leftRegistered⟩ := tailLines count batchLines
    refine ⟨fun tail there => ?_, newRegistered, held, leftRegistered⟩
    split at there
    · exact held tail there
    · cases there

/-- A sink that wants every batch would lose names with a batch that is silent otherwise. -/
def LosesKeys (prefersUncoalesced : Bool) (state : PipelineState) (input : StageInput) : Prop :=
  prefersUncoalesced = true ∧ Silent state input.parsed ∧
    state.coalescer.prevKeyCount < input.now.keysDrained.size

/-- Unless names are lost, a batch keeps the report. -/
theorem stageC_reports {baseline : Nat} {prefersUncoalesced : Bool} {state : PipelineState}
    {input : StageInput}
    (reports : state.coalescer.Reports baseline input.now.keysDrained)
    (held : state.HeldRegistered input.now.keysDrained.size)
    (lines : ∀ line ∈ input.parsed.lines, line.Registered input.now.keysDrained.size)
    (keeps : ¬LosesKeys prefersUncoalesced state input) :
    (stageC prefersUncoalesced state input.now input.parsed).coalescer.Reports baseline
      input.now.keysDrained ∧
      (stageC prefersUncoalesced state input.now input.parsed).HeldRegistered
        input.now.keysDrained.size := by
  obtain ⟨middle, released, newHeld, left, -, delivered, heldAfter, content, registered⟩ :=
    stageC_parts prefersUncoalesced state input.now input.parsed
  obtain ⟨releasedKeys, newKeys, middleKeys, leftKeys⟩ := registered _ held lines
  constructor
  · rw [delivered]
    cases prefersUncoalesced
    · exact deliverCoalesced_reports reports releasedKeys leftKeys _ _
    · rw [if_pos rfl]
      rcases deliverUncoalesced_cases state.coalescer input.now.keysDrained released left
          (input.parsed.completedMultiLineSpans.map (·.shift state.lineNumberDelta))
            middle.nextLineNumber with
        ⟨-, out, bare, outLines, sent⟩ | ⟨nothing, dropped⟩
      · rw [sent]
        refine (reports.send out bare fun line member => ?_).1
        rw [outLines] at member
        rcases List.mem_append.mp member with first | other
        · obtain ⟨tail, there, rfl⟩ : ∃ tail, released = some tail ∧ tail.line = line := by
            simpa using first
          exact releasedKeys tail there
        · exact leftKeys line other
      · -- Nothing is sent, but then there was no new name to report either.
        have silent : Silent state input.parsed := not_not.mp (mt content.mpr nothing)
        have caughtUp : ¬state.coalescer.prevKeyCount < input.now.keysDrained.size :=
          fun behind => keeps ⟨rfl, silent, behind⟩
        have stays : max state.coalescer.prevKeyCount input.now.keysDrained.size =
            state.coalescer.prevKeyCount :=
          max_eq_left (not_lt.mp caughtUp)
        rw [dropped, BatchCoalescer.drained, stays]
        exact reports
  · intro tail there
    rw [heldAfter] at there
    split at there
    · exact newKeys tail there
    · exact middleKeys tail there

/-- A batch that loses names leaves the sink behind. -/
theorem stageC_losesKeys {baseline : Nat} {prefersUncoalesced : Bool} {state : PipelineState}
    {input : StageInput}
    (reports : state.coalescer.Reports baseline input.now.keysDrained)
    (loses : LosesKeys prefersUncoalesced state input) :
    (stageC prefersUncoalesced state input.now input.parsed).coalescer.Behind baseline
      input.now.keysDrained := by
  -- A silent batch with new keys, and no coalescer before the sink.
  obtain ⟨rfl, silent, unreported⟩ := loses
  obtain ⟨middle, released, newHeld, left, -, delivered, -, content, -⟩ :=
    stageC_parts true state input.now input.parsed
  -- Nothing is delivered for it, so the keys that it has drained are lost.
  have nothing := mt content.mp (not_not.mpr silent)
  rw [delivered, if_pos rfl]
  rcases deliverUncoalesced_cases state.coalescer input.now.keysDrained released left
      (input.parsed.completedMultiLineSpans.map (·.shift state.lineNumberDelta))
        middle.nextLineNumber with
    ⟨some_, -⟩ | ⟨-, dropped⟩
  · exact absurd some_ nothing
  · rw [dropped]
    -- Fewer keys have been reported than drained, and no later batch brings them again.
    refine ⟨reports.bare, max_le reports.below le_rfl, ?_⟩
    have above := reports.above
    have below := reports.below
    simp only [BatchCoalescer.drained, reports.reported, List.length_drop, List.length_take]
    simp only [KeyIndex.size, Interner.size] at below unreported ⊢
    omega

/-- What a batch sends does not make up for names that were passed. -/
theorem stageC_behind {baseline : Nat} {prefersUncoalesced : Bool} {state : PipelineState}
    {input : StageInput}
    (behind : state.coalescer.Behind baseline input.now.keysDrained) :
    (stageC prefersUncoalesced state input.now input.parsed).coalescer.Behind baseline
      input.now.keysDrained := by
  obtain ⟨middle, released, newHeld, left, -, delivered, -, -, -⟩ :=
    stageC_parts prefersUncoalesced state input.now input.parsed
  rw [delivered]
  -- A coalescer stays behind; without one the batch sends its own keys, or drops them as well.
  cases prefersUncoalesced
  · exact deliverCoalesced_behind behind _ _ _ _
  · rw [if_pos rfl]
    rcases deliverUncoalesced_cases state.coalescer input.now.keysDrained released left
        (input.parsed.completedMultiLineSpans.map (·.shift state.lineNumberDelta))
          middle.nextLineNumber with
      ⟨-, out, bare, -, sent⟩ | ⟨-, dropped⟩
    · rw [sent]
      exact behind.send bare
    · rw [dropped]
      refine ⟨behind.bare, max_le behind.below le_rfl, behind.fewer.trans_le ?_⟩
      exact le_max_left _ _

/-- The keys over a run: none is taken back, and those of a batch are there when the batch is. -/
def KeysGrow : KeyIndex → List StageInput → FlushMoment → FlushMoment → Prop
  | keys, [], tail, last =>
    keys.Grows tail.keysDrained ∧ tail.keysDrained.Grows last.keysSeen ∧
      last.keysSeen.Grows last.keysDrained
  | keys, input :: rest, tail, last =>
    keys.Grows input.now.keysSeen ∧ input.now.keysSeen.Grows input.now.keysDrained ∧
      (∀ line ∈ input.parsed.lines, line.Registered input.now.keysSeen.size) ∧
        KeysGrow input.now.keysDrained rest tail last

/-- The end of the parse keeps the report. -/
theorem finish_reports {baseline : Nat} {prefersUncoalesced : Bool} {state : PipelineState}
    {keys : KeyIndex}
    {tail last : FlushMoment} (reports : state.coalescer.Reports baseline keys)
    (held : state.HeldRegistered keys.size) (history : KeysGrow keys [] tail last) :
    ReportsKeys baseline last.keysDrained (finish prefersUncoalesced state tail last).sink := by
  have atTail := reports.grow history.1
  have later := history.2.1.trans history.2.2
  -- A line that is held back was registered with its batch.
  have heldThen : ∀ tailLine ∈ state.held, tailLine.line.Registered tail.keysDrained.size :=
    fun tailLine there => (held tailLine there).grow (Interner.Grows.size_le history.1)
  unfold finish
  refine BatchCoalescer.Reports.finish (BatchCoalescer.Reports.grow ?_ later) _
  cases found : state.held with
  | none => exact atTail
  | some tailLine =>
    have keys := heldThen tailLine found
    -- What is held back is sent last, behind every key of its own.
    cases prefersUncoalesced
    · exact pendReleased_reports atTail fun other there => Option.some.inj there ▸ keys
    · refine (atTail.send _ rfl fun line member => ?_).1
      obtain rfl : line = tailLine.line := by simpa [withReleased, SinkBatch.empty] using member
      exact keys

/-- The end of the parse does not make up for names that were passed. -/
theorem finish_behind {baseline : Nat} {prefersUncoalesced : Bool} {state : PipelineState}
    {keys : KeyIndex}
    {tail last : FlushMoment} (behind : state.coalescer.Behind baseline keys)
    (history : KeysGrow keys [] tail last) :
    ¬ReportsKeys baseline last.keysDrained (finish prefersUncoalesced state tail last).sink := by
  have atTail := behind.grow history.1
  unfold finish
  refine BatchCoalescer.Behind.finish
    (BatchCoalescer.Behind.grow ?_ (history.2.1.trans history.2.2)) _
  -- Whatever is done with the held record, the keys behind the last flush are missing.
  cases state.held with
  | none => exact atTail
  | some tailLine =>
    cases prefersUncoalesced
    · exact pendReleased_behind atTail (some tailLine)
    · exact atTail.send rfl

/-- A name that was passed stays missing to the end of the run. -/
theorem runStageC_behind {baseline : Nat} (prefersUncoalesced : Bool) {inputs : List StageInput}
    {state : PipelineState}
    {keys : KeyIndex} {tail last : FlushMoment} (behind : state.coalescer.Behind baseline keys)
    (history : KeysGrow keys inputs tail last) :
    ¬ReportsKeys baseline last.keysDrained
      (finish prefersUncoalesced (runStageC prefersUncoalesced state inputs) tail last).sink := by
  induction inputs generalizing state keys with
  | nil => exact finish_behind behind history
  | cons input rest ih =>
    exact ih (stageC_behind (behind.grow (history.1.trans history.2.1))) history.2.2.2

/-- The names are all reported, in time, exactly if no batch of the run loses names. -/
theorem runStageC_reportsKeys_iff {baseline : Nat} {prefersUncoalesced : Bool}
    {inputs : List StageInput}
    {state : PipelineState} {keys : KeyIndex} {tail last : FlushMoment}
    (reports : state.coalescer.Reports baseline keys) (held : state.HeldRegistered keys.size)
    (history : KeysGrow keys inputs tail last) :
    ReportsKeys baseline last.keysDrained
        (finish prefersUncoalesced (runStageC prefersUncoalesced state inputs) tail last).sink ↔
      CleanRun (step prefersUncoalesced)
        (fun state input => ¬LosesKeys prefersUncoalesced state input)
        state inputs := by
  induction inputs generalizing state keys with
  | nil => exact iff_of_true (finish_reports reports held history) trivial
  | cons input rest ih =>
    obtain ⟨before, between, lines, later⟩ := history
    have grown := before.trans between
    have reportsNow := reports.grow grown
    by_cases loses : LosesKeys prefersUncoalesced state input
    · -- One silent batch is enough: what is missing stays missing to the end.
      refine iff_of_false ?_ fun clean => clean.1 loses
      have missing := runStageC_behind prefersUncoalesced (stageC_losesKeys reportsNow loses) later
      exact missing
    · -- A batch that loses nothing reports, and the rest decides.
      obtain ⟨reportsNext, heldNext⟩ := stageC_reports reportsNow
        (fun tailLine there => (held tailLine there).grow (Interner.Grows.size_le grown))
        (fun line member => (lines line member).grow (Interner.Grows.size_le between)) loses
      refine (ih reportsNext heldNext later).trans ⟨fun clean => ⟨loses, fun next stepped => ?_⟩,
        fun clean => ?_⟩
      · obtain rfl := Option.some.inj stepped
        exact clean
      · exact clean.2 _ rfl

end PipelineState

end Loglib
