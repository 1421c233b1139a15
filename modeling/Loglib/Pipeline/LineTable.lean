import Loglib.Basic.Runs
import Loglib.Basic.SeparatedLines
import Loglib.Pipeline.StaticPipeline

/-! The line offsets that a static parse hands to its sink, against the true line table of
the file. -/

namespace Loglib

/-- Part of the content of a batch, which neither the keys nor the line number take part in. -/
structure ContentPart (β : Type) where
  read : SinkBatch → List β
  read_stamp : ∀ (batch : SinkBatch) (newKeys : List Bytes) (first : Nat),
    read { batch with newKeys := newKeys, firstLineNumber := first } = read batch
  read_empty : read .empty = []

/-- The line offsets of a batch. -/
def ContentPart.offsets : ContentPart Nat := ⟨(·.localLineOffsets), fun _ _ _ => rfl, rfl⟩

/-- The lines of a batch. -/
def ContentPart.lines : ContentPart LogLine := ⟨(·.lines), fun _ _ _ => rfl, rfl⟩

namespace BatchCoalescer

variable {β : Type} (part : ContentPart β)

/-- A part of everything that was sent or is pending, in order. -/
def output (coalescer : BatchCoalescer) : List β :=
  coalescer.sink.flatMap part.read ++ part.read coalescer.pending

/-- Priming changes no content. -/
@[simp] theorem output_prime (coalescer : BatchCoalescer) (first : Nat) :
    (coalescer.prime first).output part = coalescer.output part := by
  unfold prime output
  split
  · rfl
  · rw [part.read_stamp coalescer.pending coalescer.pending.newKeys first]

/-- Keys are no content. -/
theorem read_drainNewKeysInto (coalescer : BatchCoalescer) (keys : KeyIndex) (out : SinkBatch) :
    part.read (coalescer.drainNewKeysInto keys out) = part.read out :=
  part.read_stamp out _ out.firstLineNumber

/-- Shipping moves the content from the pending batch to the sink. -/
@[simp] theorem output_ship (coalescer : BatchCoalescer) (keys : KeyIndex) :
    (coalescer.ship keys).output part = coalescer.output part := by
  simp [ship, output, onBatch, drained, part.read_empty, read_drainNewKeysInto]

/-- A flush changes no content. -/
@[simp] theorem output_tryFlush (coalescer : BatchCoalescer) (now : FlushMoment) :
    (coalescer.tryFlush now).output part = coalescer.output part := by
  unfold tryFlush
  simp only
  -- A flush moves content from what is pending to what has been sent.
  split
  · rfl
  · split
    · exact output_ship part coalescer now.keysDrained
    · rfl

/-- The last batch leaves no content behind. -/
theorem finish_sends {coalescer : BatchCoalescer} (now : FlushMoment) (fallbackLineNumber : Nat)
    (noticed : part.read coalescer.pending ≠ [] →
      coalescer.primed = true ∨ coalescer.pending.errors ≠ [] ∨
        coalescer.pending.localLineOffsets ≠ []) :
    (coalescer.finish now fallbackLineNumber).sink.flatMap part.read = coalescer.output part := by
  unfold finish
  simp only
  split
  · -- What waits is shipped, with its stamp.
    have shipped := output_ship part (coalescer.prime fallbackLineNumber) now.keysDrained
    rw [output_prime] at shipped
    simpa [output, ship, part.read_empty] using shipped
  · rename_i nothing
    -- Nothing makes the flush ship, so nothing of this part waits.
    have none_ : part.read coalescer.pending = [] := by
      by_contra some_
      rcases noticed some_ with primed | errors | offsets
      · exact nothing (.inl primed)
      · exact nothing (.inr (.inr (.inl errors)))
      · exact nothing (.inr (.inr (.inr offsets)))
    have tail : part.read { SinkBatch.empty with firstLineNumber := fallbackLineNumber } = [] :=
      (part.read_stamp SinkBatch.empty [] fallbackLineNumber).trans part.read_empty
    simp [onBatch, drained, output, none_, read_drainNewKeysInto, tail]

end BatchCoalescer

namespace PipelineState

/-- The offsets of the held record. -/
def heldOffsets (state : PipelineState) : List Nat := (state.held.map (·.lineOffsets)).getD []

/-- How many offsets of a batch go to the held record. -/
def movedCount (state : PipelineState) (parsed : ParsedPipelineBatch) : Nat :=
  if parsed.leadingContinuationBytes = [] ∨ state.held.isNone then 0
    else parsed.leadingContinuationLineCount

/-- Adopting the lines of a batch touches neither its offsets nor what is held. -/
theorem adoptLines_frame (state : PipelineState) (parsed : ParsedPipelineBatch) :
    ∃ file lines, state.adoptLines parsed = ({ state with file }, { parsed with lines }) ∧
      file.data = state.file.data ∧ lines.length = parsed.lines.length := by
  unfold adoptLines
  simp only
  split
  · exact ⟨state.file, _, rfl, rfl, List.length_map _⟩
  · exact ⟨_, _, rfl, rfl, by simp⟩

/-- The leading offsets go behind those of the held record, the others stay. -/
theorem spliceLeading_offsets (state : PipelineState) (parsed : ParsedPipelineBatch) :
    (state.spliceLeading parsed).1.heldOffsets =
        state.heldOffsets ++ parsed.localLineOffsets.take (state.movedCount parsed) ∧
      (state.spliceLeading parsed).2.localLineOffsets = parsed.localLineOffsets.drop
        (state.movedCount parsed) ∧
      (state.spliceLeading parsed).2.lines = parsed.lines ∧
      (state.spliceLeading parsed).1.coalescer = state.coalescer ∧
      (state.spliceLeading parsed).1.nextLineNumber = state.nextLineNumber := by
  unfold spliceLeading movedCount heldOffsets
  by_cases nothing : parsed.leadingContinuationBytes = []
  · simp [nothing]
  · -- Without a held record nothing moves, as nothing is spliced.
    cases held : state.held with
    | none => simp [nothing, held]
    | some tail =>
      by_cases counted : 0 < parsed.leadingContinuationLineCount
      · simp [nothing, counted]
      · obtain none_ : parsed.leadingContinuationLineCount = 0 := by omega
        simp [nothing, none_]

/-- A batch without a record opens none, and otherwise only the last offset may be held back. -/
theorem openTail_offsets (state : PipelineState) (parsed : ParsedPipelineBatch) :
    (state.openTail parsed).2.localLineOffsets ++
      (((state.openTail parsed).1.map (·.lineOffsets)).getD []) =
        parsed.localLineOffsets ∧
      (parsed.lines = [] → state.openTail parsed = (none, parsed)) := by
  unfold openTail
  -- A line that is held back takes its offset with it.
  cases last : parsed.lines.getLast? with
  | none => simp
  | some tailLine =>
    have some_ : parsed.lines ≠ [] := fun none_ => by simp [none_] at last
    refine ⟨?_, fun none_ => absurd none_ some_⟩
    cases parsed.lastRecordOpenForContinuation
    · simp
    · rcases List.eq_nil_or_concat parsed.localLineOffsets with none_ | ⟨front, offset, some_⟩
      · simp [none_]
      · simp [some_]

/-- A released record goes in front of its batch. -/
theorem read_withReleased_offsets (released : Option HeldTail) (batch : SinkBatch) :
    (withReleased released batch).localLineOffsets =
      ((released.map (·.lineOffsets)).getD []) ++ batch.localLineOffsets := by
  cases released <;> rfl

/-- What is released goes behind what is pending. -/
theorem pendReleased_offsets (coalescer : BatchCoalescer) (released : Option HeldTail) :
    (pendReleased coalescer released).output .offsets =
      coalescer.output .offsets ++ ((released.map (·.lineOffsets)).getD []) := by
  cases released with
  | none => simp [pendReleased]
  | some held =>
    have primed := BatchCoalescer.output_prime .offsets coalescer held.absoluteLineNumber
    simp only [BatchCoalescer.output, ContentPart.offsets] at primed ⊢
    simp only [pendReleased, Option.map_some, Option.getD_some, ← List.append_assoc, primed]

/-- The offsets of a batch for a sink that wants larger batches. -/
theorem deliverCoalesced_offsets (coalescer : BatchCoalescer) (now : FlushMoment)
    (released : Option HeldTail)
    (parsed : ParsedPipelineBatch) (spans : List MultiLineRecordSpan) (nextLineNumber : Nat) :
    (deliverCoalesced coalescer now released parsed spans nextLineNumber).output .offsets =
      coalescer.output .offsets ++ ((released.map (·.lineOffsets)).getD []) ++
        parsed.localLineOffsets := by
  -- What is released comes first, then what has been parsed, and the flush sends both on.
  have pended := pendReleased_offsets coalescer released
  unfold deliverCoalesced
  simp only [BatchCoalescer.output_tryFlush]
  generalize pendReleased coalescer released = before at pended
  have primed : (if parsed.lines = [] then before
      else before.prime (nextLineNumber + parsed.leadingContinuationLineCount)).output .offsets =
      before.output .offsets := by
    split
    · rfl
    · exact BatchCoalescer.output_prime _ _ _
  generalize (if parsed.lines = [] then before
    else before.prime (nextLineNumber + parsed.leadingContinuationLineCount)) = middle at primed
  rw [← pended, ← primed]
  simp [BatchCoalescer.output, ContentPart.offsets, appendParsed]

/-- The offsets of a batch for a sink that wants every batch as it is. Such a sink has
nothing pending. -/
theorem deliverUncoalesced_offsets {coalescer : BatchCoalescer} (keysDrained : KeyIndex)
    (released : Option HeldTail) (parsed : ParsedPipelineBatch) (spans : List MultiLineRecordSpan)
    (nextLineNumber : Nat) (bare : coalescer.pending.localLineOffsets = []) :
    (deliverUncoalesced coalescer keysDrained released parsed spans nextLineNumber).output
      .offsets =
        coalescer.output .offsets ++ ((released.map (·.lineOffsets)).getD []) ++
          parsed.localLineOffsets ∧
      (deliverUncoalesced coalescer keysDrained released parsed spans
        nextLineNumber).pending.localLineOffsets =
        [] := by
  unfold deliverUncoalesced
  simp only
  split
  · refine ⟨?_, bare⟩
    simp [BatchCoalescer.output, ContentPart.offsets, BatchCoalescer.onBatch,
      BatchCoalescer.drained, bare,
      BatchCoalescer.drainNewKeysInto, read_withReleased_offsets, appendParsed, SinkBatch.empty]
  · -- A batch that is not sent has no offsets.
    rename_i nothing
    simp only [not_or, not_not] at nothing
    have none_ := nothing.2.2.1
    simp only [BatchCoalescer.drainNewKeysInto, read_withReleased_offsets, appendParsed,
      SinkBatch.empty,
      List.nil_append] at none_
    refine ⟨?_, bare⟩
    rw [List.append_assoc, none_, List.append_nil]
    rfl

/-- One batch, offset by offset: with a new record everything comes out in order; without one, what
does not go to the held record overtakes it. -/
theorem stageC_offsets (prefersUncoalesced : Bool) {state : PipelineState} (now : FlushMoment)
    (parsed : ParsedPipelineBatch)
    (bare : prefersUncoalesced = true → state.coalescer.pending.localLineOffsets = []) :
    let after := stageC prefersUncoalesced state now parsed
    (prefersUncoalesced = true → after.coalescer.pending.localLineOffsets = []) ∧
      ∃ emitted, after.coalescer.output .offsets = state.coalescer.output .offsets ++ emitted ∧
        (parsed.lines ≠ [] → emitted ++ after.heldOffsets = state.heldOffsets ++
          parsed.localLineOffsets) ∧
        (parsed.lines = [] →
          emitted = parsed.localLineOffsets.drop (state.movedCount parsed) ∧
            after.heldOffsets =
              state.heldOffsets ++ parsed.localLineOffsets.take (state.movedCount parsed)) := by
  obtain ⟨file, lines, adopted, -, sameLength⟩ := state.adoptLines_frame parsed
  have sameEmpty : lines = [] ↔ parsed.lines = [] := by
    rw [← List.length_eq_zero_iff, sameLength, List.length_eq_zero_iff]
  obtain ⟨held, offsets, splicedLines, coalescer, number⟩ :=
    spliceLeading_offsets { state with file } { parsed with lines }
  unfold stageC
  simp only [adopted]
  generalize spliceLeading { state with file } { parsed with lines } = spliced at *
  obtain ⟨middle, batch⟩ := spliced
  obtain ⟨rest, none_⟩ := openTail_offsets middle batch
  simp only at held offsets splicedLines coalescer number rest none_ ⊢
  generalize openTail middle batch = opened at *
  obtain ⟨newHeld, left⟩ := opened
  simp only at rest none_ ⊢
  have bare' : prefersUncoalesced = true → middle.coalescer.pending.localLineOffsets = [] := by
    rw [coalescer]
    exact bare
  -- Either way of delivery has the same effect on the offsets.
  have delivered (released : Option HeldTail) (spans : List MultiLineRecordSpan) :
      let after :=
        if prefersUncoalesced then
          deliverUncoalesced middle.coalescer now.keysDrained released left spans
            middle.nextLineNumber
        else deliverCoalesced middle.coalescer now released left spans middle.nextLineNumber
      after.output .offsets = state.coalescer.output .offsets ++
        ((released.map (·.lineOffsets)).getD []) ++
          left.localLineOffsets ∧ (prefersUncoalesced = true →
            after.pending.localLineOffsets = []) := by
    cases prefersUncoalesced
    · have sent := deliverCoalesced_offsets middle.coalescer now released left spans
        middle.nextLineNumber
      rw [coalescer] at sent
      simp only [Bool.false_eq_true, if_false, false_imp_iff, and_true]
      rw [coalescer]
      exact sent
    · have sent := deliverUncoalesced_offsets now.keysDrained released left spans
        middle.nextLineNumber (bare' rfl)
      rw [coalescer] at sent
      simp only [if_true, true_imp_iff]
      rw [coalescer]
      exact sent
  obtain ⟨output, still⟩ := delivered (if batch.lines ≠ [] then middle.held else none) _
  rw [List.append_assoc] at output
  refine ⟨still, _, output, fun some_ => ?_, fun empty => ?_⟩
  · have fresh : batch.lines ≠ [] := by
      rw [splicedLines]
      exact fun nothing => some_ (sameEmpty.mp nothing)
    simp only [heldOffsets, if_pos fresh] at held ⊢
    rw [held, List.append_assoc, rest, offsets, List.append_assoc, List.take_append_drop]
  · have empty' : batch.lines = [] := by
      rw [splicedLines]
      exact sameEmpty.mpr empty
    have same := none_ empty'
    rw [Prod.mk.injEq] at same
    have stays : ¬batch.lines ≠ [] := not_not.mpr empty'
    simp only [heldOffsets, if_neg stays] at held ⊢
    rw [same.2, offsets]
    exact ⟨rfl, held⟩

/-- The end of the parse sends the offsets that are pending or held. -/
theorem finish_offsets (prefersUncoalesced : Bool) {state : PipelineState} (tail last : FlushMoment)
    (bare : prefersUncoalesced = true → state.coalescer.pending.localLineOffsets = []) :
    (finish prefersUncoalesced state tail last).sink.flatMap (·.localLineOffsets) =
      state.coalescer.output .offsets ++ state.heldOffsets := by
  -- The last flush sends every offset that waits.
  have ends (coalescer : BatchCoalescer) :
      (coalescer.finish last state.nextLineNumber).sink.flatMap (·.localLineOffsets) =
        coalescer.output .offsets :=
    BatchCoalescer.finish_sends .offsets last state.nextLineNumber fun some_ => .inr (.inr some_)
  unfold finish heldOffsets
  simp only
  rw [ends]
  cases state.held with
  | none => simp
  -- A record that is held back goes in front of the flush.
  | some held =>
    cases prefersUncoalesced
    · have pended := pendReleased_offsets state.coalescer (some held)
      simpa using pended
    · simp [BatchCoalescer.output, ContentPart.offsets, BatchCoalescer.onBatch,
        BatchCoalescer.drained, bare rfl,
        BatchCoalescer.drainNewKeysInto, read_withReleased_offsets, SinkBatch.empty]

end PipelineState

/-- One call of the serial stage. -/
structure StageInput where
  now : FlushMoment
  parsed : ParsedPipelineBatch

namespace PipelineState

/-- The serial stage as a step, which never fails. -/
def step (prefersUncoalesced : Bool) (state : PipelineState) (input : StageInput) :
    Option PipelineState :=
  some (stageC prefersUncoalesced state input.now input.parsed)

/-- The state after all batches. -/
def runStageC (prefersUncoalesced : Bool) (state : PipelineState) (inputs : List StageInput) :
    PipelineState :=
  inputs.foldl (fun state input => stageC prefersUncoalesced state input.now input.parsed) state

/-- The state before the first batch. -/
def start (file : LogFile) (keys : KeyIndex) (flushLines : Nat) (newKeyBaseline : Option Nat) :
    PipelineState :=
  ⟨file, .start keys flushLines newKeyBaseline, none, 1⟩

/-- The offsets of all batches as they come in. -/
def arrivingOffsets (inputs : List StageInput) : List Nat :=
  inputs.flatMap (·.parsed.localLineOffsets)

/-- A batch opens no record while one is held, and not all of its lines go to the held record. -/
def Overtakes (state : PipelineState) (parsed : ParsedPipelineBatch) : Prop :=
  parsed.lines = [] ∧
    state.heldOffsets ++ parsed.localLineOffsets.take (state.movedCount parsed) ≠ [] ∧
    parsed.localLineOffsets.drop (state.movedCount parsed) ≠ []

/-- A batch that does not overtake keeps the order. -/
theorem stageC_keepsOrder {prefersUncoalesced : Bool} {state : PipelineState} (now : FlushMoment)
    {parsed : ParsedPipelineBatch}
    (bare : prefersUncoalesced = true → state.coalescer.pending.localLineOffsets = [])
    (keeps : ¬Overtakes state parsed) :
    (stageC prefersUncoalesced state now parsed).coalescer.output .offsets ++
        (stageC prefersUncoalesced state now parsed).heldOffsets =
      state.coalescer.output .offsets ++ state.heldOffsets ++ parsed.localLineOffsets := by
  obtain ⟨-, emitted, output, fresh, none_⟩ := stageC_offsets prefersUncoalesced now parsed bare
  rw [output, List.append_assoc, List.append_assoc]
  congr 1
  by_cases empty : parsed.lines = []
  · obtain ⟨rfl, held⟩ := none_ empty
    rw [held]
    have parts := List.take_append_drop (state.movedCount parsed) parsed.localLineOffsets
    -- Either nothing is left to pass, or nothing is held back.
    by_cases behind : parsed.localLineOffsets.drop (state.movedCount parsed) = []
    · rw [behind, List.append_nil] at parts
      rw [behind, parts, List.nil_append]
    · have nothing : state.heldOffsets ++ parsed.localLineOffsets.take (state.movedCount parsed) =
          [] := by
        by_contra some_
        exact keeps ⟨empty, some_, behind⟩
      rw [List.append_eq_nil_iff] at nothing
      rw [nothing.2, List.nil_append] at parts
      rw [nothing.1, nothing.2, parts, List.append_nil, List.append_nil, List.nil_append]
  · exact fresh empty

/-- A sink that wants every batch as it is never has offsets pending. -/
theorem runStageC_bare {prefersUncoalesced : Bool} (inputs : List StageInput)
    {state : PipelineState}
    (bare : prefersUncoalesced = true → state.coalescer.pending.localLineOffsets = []) :
    prefersUncoalesced = true →
      (runStageC prefersUncoalesced state inputs).coalescer.pending.localLineOffsets = [] := by
  induction inputs generalizing state with
  | nil => exact bare
  | cons input rest ih => exact ih (stageC_offsets prefersUncoalesced input.now input.parsed bare).1

/-- What has come out stays in front. -/
theorem runStageC_output_prefix {prefersUncoalesced : Bool} (inputs : List StageInput)
    {state : PipelineState}
    (bare : prefersUncoalesced = true → state.coalescer.pending.localLineOffsets = []) :
    state.coalescer.output .offsets <+:
      (runStageC prefersUncoalesced state inputs).coalescer.output .offsets := by
  induction inputs generalizing state with
  | nil => exact List.prefix_refl _
  | cons input rest ih =>
    obtain ⟨still, emitted, output, -⟩ :=
      stageC_offsets prefersUncoalesced input.now input.parsed bare
    exact (output ▸ List.prefix_append _ emitted).trans (ih still)

/-- A batch that overtakes puts a later offset in the place of an earlier one. -/
theorem overtakes_misplaces {before held offsets : List Nat} (final : List Nat) {count : Nat}
    (rising : (before ++ held ++ offsets).Pairwise (· < ·))
    (waits : held ++ offsets.take count ≠ [])
    (passes : offsets.drop count ≠ []) :
    ¬(before ++ offsets.drop count <+: before ++ held ++ offsets ++ final) := by
  intro inPlace
  rw [List.append_assoc, List.append_assoc, List.prefix_append_right_inj] at inPlace
  obtain ⟨first, others, passed⟩ := List.exists_cons_of_ne_nil passes
  obtain ⟨waiting, rest, waited⟩ := List.exists_cons_of_ne_nil waits
  have parts := List.take_append_drop count offsets
  rw [passed] at inPlace parts
  rw [← parts, ← List.append_assoc, ← List.append_assoc, waited, List.append_assoc,
    List.cons_append] at inPlace
  -- The two first offsets would be one, but the waiting one is smaller.
  have same : first = waiting := (List.cons_prefix_cons.mp inPlace).1
  rw [List.append_assoc, ← parts, ← List.append_assoc held, waited] at rising
  have smaller := (List.pairwise_append.mp (List.pairwise_append.mp rising).2.1).2.2 waiting
    List.mem_cons_self first List.mem_cons_self
  omega

/-- All offsets come out in order exactly if no batch overtakes a held record. -/
theorem runStageC_offsets_iff {prefersUncoalesced : Bool} {inputs : List StageInput}
    {state : PipelineState}
    (bare : prefersUncoalesced = true → state.coalescer.pending.localLineOffsets = [])
    (rising : (state.coalescer.output .offsets ++ state.heldOffsets ++
    arrivingOffsets inputs).Pairwise (· < ·)) :
    (runStageC prefersUncoalesced state inputs).coalescer.output .offsets ++
          (runStageC prefersUncoalesced state inputs).heldOffsets =
        state.coalescer.output .offsets ++ state.heldOffsets ++ arrivingOffsets inputs ↔
      CleanRun (step prefersUncoalesced)
        (fun state input => ¬Overtakes state input.parsed) state inputs := by
  induction inputs generalizing state with
  | nil => simp [runStageC, arrivingOffsets, CleanRun]
  | cons input rest ih =>
    obtain ⟨still, emitted, output, -, none_⟩ :=
      stageC_offsets prefersUncoalesced input.now input.parsed bare
    -- The offsets in the order in which they have come.
    have total : state.coalescer.output .offsets ++ state.heldOffsets ++ arrivingOffsets
      (input :: rest) =
        state.coalescer.output .offsets ++ state.heldOffsets ++ input.parsed.localLineOffsets ++
          arrivingOffsets rest := by
      simp [arrivingOffsets]
    rw [total] at rising ⊢
    -- A record that overtakes puts its offsets before earlier ones, and what has been sent stays.
    by_cases overtakes : Overtakes state input.parsed
    · refine iff_of_false (fun same => ?_) (fun clean => clean.1 overtakes)
      obtain ⟨rfl, -⟩ := none_ overtakes.1
      have stays := runStageC_output_prefix rest still
      rw [output] at stays
      have misplaced := overtakes_misplaces (arrivingOffsets rest)
        (List.pairwise_append.mp rising).1 overtakes.2.1 overtakes.2.2
      rw [← same] at misplaced
      exact misplaced (stays.trans (List.prefix_append _ _))
    · -- In order so far, so the rest decides.
      have keeps := stageC_keepsOrder input.now bare overtakes
      rw [← keeps] at rising ⊢
      refine (ih still rising).trans ⟨fun clean => ⟨overtakes, fun next stepped => ?_⟩,
        fun clean => ?_⟩
      · obtain rfl := Option.some.inj stepped
        exact clean
      · exact clean.2 _ rfl

end PipelineState

/-- The lines of a file without their newlines. The last one may lack its newline. -/
def physicalLines (data : Bytes) : List Bytes :=
  let (lines, rest) := splitLines newline data
  if rest = [] then lines else lines ++ [rest]

/-- Where each of some lines ends, one past its newline, when the first one starts at an offset. -/
def endsFrom (start : Nat) : List Bytes → List Nat
  | [] => []
  | line :: rest => (start + line.length + 1) :: endsFrom (start + line.length + 1) rest

/-- The end offset of each line of a file. A last line without a newline ends as if it had one. -/
def lineEnds (data : Bytes) : List Nat := endsFrom 0 (physicalLines data)

/-- The lines joined again, with the newline that the file may lack at its end. -/
theorem joinLines_physicalLines (data : Bytes) :
    ∃ missing, joinLines newline (physicalLines data) = data ++ missing ∧ missing.length ≤ 1 := by
  have pieces := joinLines_splitLines newline data
  unfold physicalLines
  simp only
  -- A last line without an end gets one.
  split
  · rename_i whole
    rw [whole, List.append_nil] at pieces
    exact ⟨[], by rw [pieces, List.append_nil], Nat.zero_le _⟩
  · refine ⟨[newline], ?_, le_refl _⟩
    conv_rhs => rw [← pieces]
    simp

/-- Each line has one end. -/
@[simp] theorem length_endsFrom (start : Nat) (lines : List Bytes) :
    (endsFrom start lines).length = lines.length := by
  induction lines generalizing start with
  | nil => rfl
  | cons line lines ih => simp [endsFrom, ih]

/-- The table of ends, read behind some lines. -/
theorem endsFrom_getD (start : Nat) (front back : List Bytes) :
    (start :: endsFrom start (front ++ back)).getD front.length 0 = start +
      (joinLines newline front).length := by
  -- Each line ends one byte behind its text.
  induction front generalizing start with
  | nil => simp
  | cons line front ih =>
    have later := ih (start + line.length + 1)
    simp only [List.cons_append, endsFrom, List.length_cons, List.getD_cons_succ, later,
      joinLines_cons,
      List.length_append]
    omega

/-- With the true line table a line of a file reads as it is. -/
theorem getLine_of_lineEnds (data : Bytes) {lineId : Nat} {line : Bytes}
    (there : (physicalLines data)[lineId]? = some line) :
    ((LogFile.ofData data).appendLineOffsets (lineEnds data)).getLine lineId =
      some (LogFile.dropCarriageReturn line) := by
  obtain ⟨front, back, lines, rfl⟩ : ∃ front back, physicalLines data = front ++ line :: back ∧
      front.length = lineId := by
    obtain ⟨bound, rfl⟩ := List.getElem?_eq_some_iff.mp there
    refine ⟨(physicalLines data).take lineId, (physicalLines data).drop (lineId + 1), ?_,
      by simp; omega⟩
    rw [List.getElem_cons_drop, List.take_append_drop]
  obtain ⟨missing, joined, small⟩ := joinLines_physicalLines data
  rw [lines] at joined
  have offsets : ((LogFile.ofData data).appendLineOffsets (lineEnds data)).lineOffsets =
      0 :: endsFrom 0 (front ++ line :: back) := by
    simp [LogFile.appendLineOffsets, LogFile.ofData, lineEnds, lines]
  have starts := endsFrom_getD 0 front (line :: back)
  have stops := endsFrom_getD 0 (front ++ [line]) back
  rw [List.append_assoc, List.singleton_append, List.length_append, List.length_singleton] at stops
  simp only [joinLines_append, joinLines_cons, joinLines_nil, List.length_append, List.length_cons,
    List.length_nil, Nat.zero_add] at starts stops
  -- The file is long enough for the line, whether or not its newline is missing.
  have sizes := congrArg List.length joined
  simp only [joinLines_append, joinLines_cons, List.length_append, List.length_cons] at sizes
  have text : (data.drop (joinLines newline front).length).take line.length = line := by
    have behind : (data ++ missing).drop (joinLines newline front).length = line ++ newline ::
        joinLines newline back := by
      rw [← joined, joinLines_append, joinLines_cons, List.drop_left]
    rw [List.drop_append_of_le_length (by omega)] at behind
    have cut := congrArg (List.take line.length) behind
    rwa [List.take_append_of_le_length (by simp; omega), List.take_left] at cut
  have count : (0 :: endsFrom 0 (front ++ line :: back)).length = front.length +
      back.length + 2 := by
    simp [length_endsFrom]
    omega
  have stopLine : ((LogFile.ofData data).appendLineOffsets (lineEnds data)).stopLine front.length =
      front.length + 1 := rfl
  unfold LogFile.getLine
  rw [stopLine]
  simp only [offsets, starts, stops, count]
  rw [if_neg (by omega), if_neg (by omega)]
  have length : (joinLines newline front).length + (line.length + 1) -
    (joinLines newline front).length - 1 =
      line.length := by omega
  simp only [length]
  rw [if_neg (by simp only [LogFile.appendLineOffsets, LogFile.ofData]; omega)]
  exact congrArg some (congrArg LogFile.dropCarriageReturn text)

/-- The sink has the true line table: rising, each end once, and every line reads as it is. -/
structure DeliversLineTable (arriving sunk : List Nat) : Prop where
  rising : sunk.Pairwise (· < ·)
  complete : ∀ offset, offset ∈ sunk ↔ offset ∈ arriving
  lines : ∀ data, arriving = lineEnds data →
    ∀ lineId line, (physicalLines data)[lineId]? = some line →
    ((LogFile.ofData data).appendLineOffsets sunk).getLine lineId =
      some (LogFile.dropCarriageReturn line)

/-- Offsets that rise are the true table exactly if they are the ones that arrived, in order. -/
theorem deliversLineTable_iff {arriving sunk : List Nat} (rising : arriving.Pairwise (· < ·)) :
    DeliversLineTable arriving sunk ↔ sunk = arriving := by
  constructor
  · -- Both lists rise and have the same members.
    intro table
    have perm : sunk.Perm arriving :=
      (List.perm_ext_iff_of_nodup (table.rising.imp fun less => less.ne) (rising.imp fun less =>
        less.ne)).mpr
        table.complete
    exact perm.eq_of_pairwise (fun a b _ _ first second =>
      absurd first second.not_gt) table.rising rising
  · rintro rfl
    exact ⟨rising, fun _ => Iff.rfl, fun data ends lineId line there => by
      rw [ends]
      exact getLine_of_lineEnds data there⟩

namespace PipelineState

/-- A static parse delivers the true line table exactly if no batch overtakes a held record. -/
theorem staticParse_deliversLineTable_iff (prefersUncoalesced : Bool) (file : LogFile)
    (keys : KeyIndex)
    (flushLines : Nat) (newKeyBaseline : Option Nat) (inputs : List StageInput)
    (tail last : FlushMoment)
    (rising : (arrivingOffsets inputs).Pairwise (· < ·)) :
    DeliversLineTable (arrivingOffsets inputs)
        ((finish prefersUncoalesced
          (runStageC prefersUncoalesced (start file keys flushLines newKeyBaseline) inputs) tail
            last).sink.flatMap
            (·.localLineOffsets)) ↔
      CleanRun (step prefersUncoalesced) (fun state input => ¬Overtakes state input.parsed)
        (start file keys flushLines newKeyBaseline) inputs := by
  have bare : prefersUncoalesced = true →
      (start file keys flushLines newKeyBaseline).coalescer.pending.localLineOffsets = [] :=
        fun _ => rfl
  have sunk := finish_offsets prefersUncoalesced tail last (runStageC_bare inputs bare)
  rw [deliversLineTable_iff rising, sunk]
  exact runStageC_offsets_iff bare rising

/-- A moment at which nothing is flushed and no key is registered. -/
def quiet : FlushMoment := ⟨false, .empty, .empty⟩

/-- The batch of one record `a=x` that may go on. -/
def recordBatch (offsets : List Nat) : ParsedPipelineBatch :=
  { ParsedPipelineBatch.empty with
    lines := [.ofField 0 0 0 (.mmapSlice 2 1)]
    localLineOffsets := offsets
    totalLineCount := offsets.length
    lastRecordOpenForContinuation := true
    continuationTargetKeyId := some 0 }

/-- A record, and then a line that continues it before the next record. -/
def continuedInputs : List StageInput :=
  [⟨quiet, recordBatch [4]⟩,
    ⟨quiet, { recordBatch [7, 11] with
      leadingContinuationBytes := bytes " y"
      leadingContinuationLineCount := 1 }⟩]

/-- Two records, the first with a continuation line. -/
theorem continuedInputs_deliver :
    DeliversLineTable [4, 7, 11]
      ((finish false (runStageC false (start (.ofData (bytes "a=x\n y\na=x\n")) .empty 1000 none)
        continuedInputs)
        quiet quiet).sink.flatMap (·.localLineOffsets)) := by
  refine (staticParse_deliversLineTable_iff false _ .empty 1000 none continuedInputs quiet quiet
    (by decide)).mpr ?_
  refine ⟨fun overtakes => absurd overtakes.1 (List.cons_ne_nil _ _), fun _ _ => ?_⟩
  exact ⟨fun overtakes => absurd overtakes.1 (List.cons_ne_nil _ _), fun _ _ => trivial⟩

/-- The file `a=x` and a blank line, in batches of one line each. -/
def blankInputs : List StageInput :=
  [⟨quiet, recordBatch [4]⟩,
    ⟨quiet, { ParsedPipelineBatch.empty with localLineOffsets := [5], totalLineCount := 1 }⟩]

/-- The end of the blank line comes out before the end of the record in front of it. -/
theorem blankInputs_overtake :
    (finish false (runStageC false (start (.ofData (bytes "a=x\n\n")) .empty 1000 none) blankInputs)
        quiet quiet).sink.flatMap (·.localLineOffsets) = [5, 4] ∧
      lineEnds (bytes "a=x\n\n") = [4, 5] ∧
      ¬DeliversLineTable (arrivingOffsets blankInputs)
        ((finish false (runStageC false (start (.ofData (bytes "a=x\n\n")) .empty 1000 none)
          blankInputs)
          quiet quiet).sink.flatMap (·.localLineOffsets)) :=
  ⟨rfl, by decide, fun table => absurd table.rising (by decide)⟩

end PipelineState

end Loglib
