import Loglib.Files.DecompressingByteSource

/-! The first line of decoded output: however the output is cut into pieces, the line and what
follows it are kept apart. -/

namespace Loglib

section Lines

variable {delivered more : Bytes}

/-- The bytes before the first newline. -/
def firstLine (text : Bytes) : Bytes := text.takeWhile (· ≠ newline)

/-- The bytes after the first newline. -/
def afterFirstLine (text : Bytes) : Bytes := (text.dropWhile (· ≠ newline)).tail

/-- Without a newline every byte belongs to the first line. -/
theorem all_of_not_mem (unended : newline ∉ delivered) :
    ∀ byte ∈ delivered, decide (byte ≠ newline) = true :=
  fun _ listed => decide_eq_true fun same => unended (same ▸ listed)

/-- A text without a newline is its first line. -/
theorem firstLine_eq_self (unended : newline ∉ delivered) : firstLine delivered = delivered :=
  List.takeWhile_eq_self_iff.mpr (all_of_not_mem unended)

/-- A first line goes on until a newline comes. -/
theorem firstLine_append (unended : newline ∉ delivered) :
    firstLine (delivered ++ more) = delivered ++ firstLine more :=
  List.takeWhile_append_of_pos (all_of_not_mem unended)

/-- Nothing follows a first line that has not ended. -/
theorem afterFirstLine_append (unended : newline ∉ delivered) (more : Bytes) :
    afterFirstLine (delivered ++ more) = afterFirstLine more := by
  rw [afterFirstLine, List.dropWhile_append_of_pos (all_of_not_mem unended), afterFirstLine]

/-- The first newline ends the first line. -/
theorem firstLine_append_newline (unended : newline ∉ delivered) :
    firstLine (delivered ++ newline :: more) = delivered := by
  rw [firstLine_append unended, firstLine, List.takeWhile_cons_of_neg (by simp), List.append_nil]

/-- What follows the first newline. -/
theorem afterFirstLine_append_newline (unended : newline ∉ delivered) :
    afterFirstLine (delivered ++ newline :: more) = more := by
  rw [afterFirstLine_append unended, afterFirstLine, List.dropWhile_cons_of_neg (by simp),
    List.tail_cons]

/-- A text with a newline is its first line, the newline and what follows. -/
theorem eq_append_newline (ended : newline ∈ delivered) :
    ∃ line rest, newline ∉ line ∧ delivered = line ++ newline :: rest := by
  obtain ⟨line, rest, same, unended⟩ := List.eq_append_cons_of_mem ended
  exact ⟨line, rest, unended, same⟩

/-- Nothing follows the first line of a text without a newline. -/
theorem afterFirstLine_eq_nil (unended : newline ∉ delivered) : afterFirstLine delivered = [] := by
  have alone := afterFirstLine_append unended []
  rwa [List.append_nil] at alone

/-- The position of the first newline is the length of the first line. -/
theorem split_at_newline (text : Bytes) :
    text.idxOf newline = (firstLine text).length ∧ text.take (text.idxOf newline) = firstLine text ∧
      text.drop (text.idxOf newline + 1) = afterFirstLine text ∧ (text.idxOf newline ≠ text.length ↔
        newline ∈ text) := by
  -- Without a newline the position is the length, and nothing stands behind it.
  by_cases ended : newline ∈ text
  · obtain ⟨line, rest, unended, rfl⟩ := eq_append_newline ended
    have position : (line ++ newline :: rest).idxOf newline = line.length := by
      rw [List.idxOf_append_of_notMem unended, List.idxOf_cons_self, Nat.add_zero]
    rw [position, firstLine_append_newline unended, afterFirstLine_append_newline unended]
    refine ⟨rfl, List.take_left, ?_, iff_of_true ?_ ended⟩
    · rw [List.drop_length_add_append, List.drop_succ_cons, List.drop_zero]
    · rw [List.length_append, List.length_cons]
      omega
  · have position : text.idxOf newline = text.length := List.idxOf_eq_length_iff.mpr ended
    rw [position, firstLine_eq_self ended, afterFirstLine_eq_nil ended]
    exact ⟨rfl, List.take_length, List.drop_eq_nil_of_le (Nat.le_succ _),
      iff_of_false (fun differs => differs rfl) ended⟩

end Lines

namespace DecompressOptions

variable {options : DecompressOptions} {delivered plain : Bytes}

/-- What is kept apart of some output. -/
def header (options : DecompressOptions) (plain : Bytes) : Bytes :=
  if options.discardFirstLine then firstLine plain else []

/-- What is written of some output. -/
def remainder (options : DecompressOptions) (plain : Bytes) : Bytes :=
  if options.discardFirstLine then afterFirstLine plain else plain

/-- Output beyond one of the two limits. -/
def Exceeds (options : DecompressOptions) (plain : Bytes) : Prop :=
  options.maxDiscardedFirstLineBytes < (options.header plain).length ∨
    (options.maxDecompressedBytes ≠ 0 ∧
      options.maxDecompressedBytes < (options.remainder plain).length)

/-- The first line has ended, where there is to be one. -/
def Ended (options : DecompressOptions) (plain : Bytes) : Prop := options.discardFirstLine = true →
    newline ∈ plain

/-- Once the first line has ended, further output is written. -/
theorem append_of_ended (ended : options.Ended delivered) (more : Bytes) :
    options.header (delivered ++ more) = options.header delivered ∧
      options.remainder (delivered ++ more) = options.remainder delivered ++ more := by
  unfold header remainder
  by_cases discards : options.discardFirstLine = true
  · -- The newline is in what has been delivered, so the line is complete.
    obtain ⟨line, rest, unended, rfl⟩ := eq_append_newline (ended discards)
    rw [if_pos discards, if_pos discards, if_pos discards, if_pos discards, List.append_assoc,
      List.cons_append,
      firstLine_append_newline unended, firstLine_append_newline unended,
      afterFirstLine_append_newline unended,
      afterFirstLine_append_newline unended]
    exact ⟨rfl, rfl⟩
  · rw [if_neg discards, if_neg discards, if_neg discards, if_neg discards]
    exact ⟨rfl, rfl⟩

/-- Until the first line has ended, further output belongs to it up to a newline. -/
theorem append_of_not_ended (unended : ¬options.Ended delivered) (more : Bytes) :
    options.header delivered = delivered ∧ options.remainder delivered = [] ∧
      options.header (delivered ++ more) = delivered ++ firstLine more ∧
      options.remainder (delivered ++ more) = afterFirstLine more := by
  obtain ⟨discards, none_⟩ := Classical.not_imp.mp unended
  unfold header remainder
  rw [if_pos discards, if_pos discards, if_pos discards, if_pos discards]
  exact ⟨firstLine_eq_self none_, afterFirstLine_eq_nil none_, firstLine_append none_,
    afterFirstLine_append none_ more⟩

/-- More output has no shorter first line, and no less to write. -/
theorem length_le_of_prefix (part : delivered <+: plain) :
    (options.header delivered).length ≤ (options.header plain).length ∧
      (options.remainder delivered).length ≤ (options.remainder plain).length := by
  obtain ⟨more, rfl⟩ := part
  -- More output goes to the first line until it has ended, and is written from then on.
  by_cases ended : options.Ended delivered
  · obtain ⟨header, remainder⟩ := append_of_ended ended more
    rw [header, remainder, List.length_append]
    exact ⟨le_rfl, Nat.le_add_right _ _⟩
  · obtain ⟨header, remainder, longer, -⟩ := append_of_not_ended ended more
    rw [header, remainder, longer, List.length_append]
    exact ⟨Nat.le_add_right _ _, Nat.zero_le _⟩

/-- Output that goes beyond a limit does so with whatever follows. -/
theorem Exceeds.of_prefix (exceeds : options.Exceeds delivered) (part : delivered <+: plain) :
    options.Exceeds plain := by
  obtain ⟨header, remainder⟩ := length_le_of_prefix part
  exact exceeds.imp (fun beyond => beyond.trans_le header) fun beyond =>
    ⟨beyond.1, beyond.2.trans_le remainder⟩

end DecompressOptions

/-- No stop is requested, and every write takes all its bytes. -/
def DecodeJob.Quiet (job : DecodeJob) : Prop :=
  (∀ poll, job.stopRequested poll = false) ∧ ∀ write size, size ≤ job.fwrite write size

namespace DecodeState

variable {Context : Type} {job : DecodeJob} {state next : DecodeState Context}
    {data delivered produced : Bytes} {error : DecompressError}

/-- The state of a decoding that has delivered some output. -/
structure Splits (options : DecompressOptions) (delivered : Bytes)
    (state : DecodeState Context) : Prop where
  header : state.discardedFirstLine = options.header delivered
  written : state.written = options.remainder delivered
  size : state.decompressedSize = state.written.length
  complete : state.firstLineComplete = true ↔ options.Ended delivered
  within : ¬options.Exceeds delivered

/-- Output that is accepted has been written, and its size counted. -/
theorem writeOutput_ok (done : state.writeOutput job data = (next, none)) :
    (∃ writes, next = { state with
      written := state.written ++ data, writes, decompressedSize :=
        state.decompressedSize + data.length }) ∧
      ¬(job.options.maxDecompressedBytes ≠ 0 ∧
        job.options.maxDecompressedBytes < state.decompressedSize + data.length) := by
  -- Once everything is written, the size has to fit.
  have checked {writes : Nat} {written : Bytes}
      (done : ({ state with
        written
        writes
        decompressedSize := state.decompressedSize + data.length },
        if job.options.maxDecompressedBytes ≠ 0 ∧
          job.options.maxDecompressedBytes < state.decompressedSize + data.length then
          some (DecompressError.sizeCapExceeded job.sourcePath job.options.maxDecompressedBytes
            (state.decompressedSize + data.length))
        else none) = (next, none)) (whole : written = state.written ++ data) :
      (∃ writes, next = { state with
        written := state.written ++ data, writes, decompressedSize :=
          state.decompressedSize + data.length }) ∧
        ¬(job.options.maxDecompressedBytes ≠ 0 ∧
          job.options.maxDecompressedBytes < state.decompressedSize + data.length) := by
    obtain ⟨rfl, accepted⟩ := Prod.mk.inj done
    split at accepted
    · cases accepted
    · exact ⟨⟨writes, by rw [whole]⟩, ‹_›⟩
  rw [writeOutput, writeAll] at done
  by_cases none_ : data = []
  · rw [if_pos none_] at done
    exact checked done (by rw [none_, List.append_nil])
  · rw [if_neg none_] at done
    by_cases short : min (job.fwrite state.writes data.length) data.length ≠ data.length
    · dsimp only at done
      rw [if_pos short] at done
      cases done
    · dsimp only at done
      rw [if_neg short] at done
      refine checked done ?_
      rw [not_not.mp short, List.take_length]

/-- Output is refused by a failing write or for its size. -/
theorem writeOutput_error (failed : state.writeOutput job data = (next, some error)) :
    (error.isFault = true ∧ ¬job.Quiet) ∨
      (job.options.maxDecompressedBytes ≠ 0 ∧
        job.options.maxDecompressedBytes < state.decompressedSize + data.length) := by
  -- Once everything is written, only the size can refuse it.
  have checked {written : DecodeState Context}
      (failed : (written,
        if job.options.maxDecompressedBytes ≠ 0 ∧
          job.options.maxDecompressedBytes < state.decompressedSize + data.length then
          some (DecompressError.sizeCapExceeded job.sourcePath job.options.maxDecompressedBytes
            (state.decompressedSize + data.length))
        else none) = (next, some error)) :
      job.options.maxDecompressedBytes ≠ 0 ∧
        job.options.maxDecompressedBytes < state.decompressedSize + data.length := by
    by_contra fits
    rw [if_neg fits] at failed
    cases failed
  rw [writeOutput, writeAll] at failed
  by_cases none_ : data = []
  · rw [if_pos none_] at failed
    exact .inr (checked failed)
  · rw [if_neg none_] at failed
    dsimp only at failed
    by_cases short : min (job.fwrite state.writes data.length) data.length ≠ data.length
    · rw [if_pos short] at failed
      obtain ⟨-, same⟩ := Prod.mk.inj failed
      cases same
      exact .inl ⟨rfl, fun quiet => short (Nat.min_eq_right (quiet.2 _ _))⟩
    · rw [if_neg short] at failed
      exact .inr (checked failed)

/-- Before the first line has ended, a piece adds to it up to a newline, and what follows
is written. -/
theorem takePiece_eq (open_ : state.firstLineComplete = false) :
    state.takePiece job produced =
      if job.options.maxDiscardedFirstLineBytes < state.discardedFirstLine.length +
        (firstLine produced).length then
        (state, some (.firstLineTooLong job.sourcePath))
      else
        { state with
          discardedFirstLine := state.discardedFirstLine ++ firstLine produced
          firstLineComplete := decide (newline ∈ produced) }.writeOutput job
            (afterFirstLine produced) := by
  -- The piece is cut at its first newline, which is its end if there is none.
  obtain ⟨position, front, back, found⟩ := split_at_newline produced
  unfold takePiece
  rw [if_neg (by rw [open_]; exact Bool.noConfusion)]
  dsimp only
  rw [front, back, ← position]
  split
  · rfl
  · by_cases ended : newline ∈ produced
    · rw [if_pos (found.mpr ended), decide_eq_true ended]
    · rw [if_neg fun differs => ended (found.mp differs), decide_eq_false ended,
        afterFirstLine_eq_nil ended, open_]

/-- A piece that is taken is split as the whole output is. -/
theorem Splits.takePiece_ok (splits : state.Splits job.options delivered)
    (done : state.takePiece job produced = (next, none)) :
    next.Splits job.options (delivered ++ produced) ∧ next.dctx = state.dctx ∧
      next.consumed = state.consumed := by
  obtain ⟨notLong, notLarge⟩ := not_or.mp splits.within
  -- A complete first line stays as it is, and another one takes the piece up to its newline.
  by_cases ended : job.options.Ended delivered
  · obtain ⟨header, remainder⟩ := DecompressOptions.append_of_ended ended produced
    rw [takePiece, if_pos (splits.complete.mpr ended)] at done
    obtain ⟨⟨writes, rfl⟩, fits⟩ := writeOutput_ok done
    refine ⟨⟨?_, ?_, ?_, ?_, ?_⟩, rfl, rfl⟩
    · rw [header]
      exact splits.header
    · rw [remainder, ← splits.written]
    · dsimp only
      rw [List.length_append, splits.size]
    · exact iff_of_true (splits.complete.mpr ended) fun discards =>
        List.mem_append_left _ (ended discards)
    · rintro (long | large)
      · rw [header] at long
        exact notLong long
      · rw [remainder, List.length_append, ← splits.written, ← splits.size] at large
        exact fits large
  · obtain ⟨alone, none_, header, remainder⟩ := DecompressOptions.append_of_not_ended ended produced
    have open_ : state.firstLineComplete = false :=
      Bool.eq_false_iff.mpr fun complete => ended (splits.complete.mp complete)
    have kept : state.discardedFirstLine = delivered := splits.header.trans alone
    have unwritten : state.written = [] := splits.written.trans none_
    rw [takePiece_eq open_] at done
    by_cases long : job.options.maxDiscardedFirstLineBytes < state.discardedFirstLine.length +
      (firstLine produced).length
    · rw [if_pos long] at done
      cases done
    · rw [if_neg long] at done
      obtain ⟨⟨writes, rfl⟩, fits⟩ := writeOutput_ok done
      dsimp only at fits ⊢
      refine ⟨⟨?_, ?_, ?_, ?_, ?_⟩, rfl, rfl⟩
      · rw [header, ← kept]
      · dsimp only
        rw [remainder, unwritten, List.nil_append]
      · dsimp only
        rw [List.length_append, splits.size]
      · obtain ⟨discards, unended⟩ := Classical.not_imp.mp ended
        rw [decide_eq_true_iff, DecompressOptions.Ended, List.mem_append]
        exact ⟨fun listed _ => .inr listed, fun listed => (listed discards).resolve_left unended⟩
      · rintro (longer | large)
        · rw [header, List.length_append, ← kept] at longer
          exact long longer
        · rw [splits.size, unwritten, List.length_nil, Nat.zero_add] at fits
          rw [remainder] at large
          exact fits large

/-- A piece is refused by a failing write or for a limit. -/
theorem Splits.takePiece_error (splits : state.Splits job.options delivered)
    (failed : state.takePiece job produced = (next, some error)) :
    (error.isFault = true ∧ ¬job.Quiet) ∨ job.options.Exceeds (delivered ++ produced) := by
  -- A complete first line leaves the size as the only limit.
  by_cases ended : job.options.Ended delivered
  · obtain ⟨-, remainder⟩ := DecompressOptions.append_of_ended ended produced
    rw [takePiece, if_pos (splits.complete.mpr ended)] at failed
    refine (writeOutput_error failed).imp_right fun large => .inr ?_
    rwa [remainder, List.length_append, ← splits.written, ← splits.size]
  · obtain ⟨alone, none_, header, remainder⟩ := DecompressOptions.append_of_not_ended ended produced
    have open_ : state.firstLineComplete = false :=
      Bool.eq_false_iff.mpr fun complete => ended (splits.complete.mp complete)
    have kept : state.discardedFirstLine = delivered := splits.header.trans alone
    have unwritten : state.written = [] := splits.written.trans none_
    rw [takePiece_eq open_] at failed
    by_cases long : job.options.maxDiscardedFirstLineBytes < state.discardedFirstLine.length +
      (firstLine produced).length
    · rw [kept, ← List.length_append, ← header] at long
      exact .inr (.inl long)
    · rw [if_neg long] at failed
      refine (writeOutput_error failed).imp_right fun large => .inr ?_
      rw [remainder]
      rwa [splits.size, unwritten, List.length_nil, Nat.zero_add] at large

end DecodeState

section Decoding

variable {decoder : StreamDecoder} {decoded : Bytes → Bytes} {completes : Bytes → Prop}
    {job : DecodeJob}
  {state : DecodeState decoder.Context} {consumed delivered input file : Bytes} {fuel : Nat}

/-- No call on the file ends with an error. -/
def StreamDecoder.Accepts (decoder : StreamDecoder) (file : Bytes) : Prop :=
  ∀ {context consumed delivered input next taken name}, decoder.Reaches context consumed delivered →
    consumed ++ input <+: file →
    decoder.decompressStream context input ≠ (next, .error taken name)

/-- A decoding that has come to the end of some input, or has ended with an error. -/
def DecodesTo (decoder : StreamDecoder) (decoded : Bytes → Bytes) (completes : Bytes → Prop)
    (job : DecodeJob) (file consumed : Bytes) :
    DecodeState decoder.Context × Option DecompressError → Prop
  | (state, none) =>
    decoder.Reaches state.dctx consumed (decoded consumed) ∧ state.Splits job.options
      (decoded consumed) ∧
      (state.lastResult = 0 ↔ completes consumed)
  | (_, some error) =>
    (error.isFault = true ∧ ¬(job.Quiet ∧ decoder.Accepts file)) ∨ job.options.Exceeds
      (decoded file)

/-- A poll is only refused where a stop is requested. -/
theorem DecodeState.observePoll_error {next : DecodeState decoder.Context} {error : DecompressError}
    (failed : state.observePoll job = (next, some error)) : error.isFault = true ∧ ¬job.Quiet := by
  obtain ⟨-, stopped⟩ := Prod.mk.inj failed
  split at stopped
  · cases stopped
    rename_i requested
    exact ⟨rfl, fun quiet => by rw [quiet.1] at requested; cases requested⟩
  · cases stopped

/-- The calls for a chunk end, and have then consumed it all and delivered what it stands for. -/
theorem decodeChunk_decodes (laws : decoder.Delivers decoded completes)
    (state : DecodeState decoder.Context)
    (reached : decoder.Reaches state.dctx consumed delivered)
    (splits : state.Splits job.options delivered) (part : consumed ++ input <+: file)
    (drained : input = [] → delivered = decoded consumed ∧ (state.lastResult = 0 ↔
    completes consumed))
    (enough : StreamDecoder.Delivers.pending decoded consumed delivered input < fuel) :
    ∃ ended, decodeChunk decoder job fuel input state = some ended ∧
      DecodesTo decoder decoded completes job file (consumed ++ input) ended := by
  -- Each call leaves less to consume or to deliver.
  induction fuel generalizing consumed delivered input state with
  | zero => exact absurd enough (Nat.not_lt_zero _)
  | succ fuel ih =>
    rw [decodeChunk]
    -- A chunk that is used up has been delivered by the call before.
    by_cases none_ : input = []
    · obtain ⟨rfl, reports⟩ := drained none_
      rw [if_pos none_, none_, List.append_nil]
      exact ⟨_, rfl, reached, splits, reports⟩
    rw [if_neg none_]
    cases polled : state.observePoll job with
    | mk next thrown =>
      have same : next = { state with
        progress := state.progress ++ [(state.consumed, job.totalBytesIn)] } :=
        (Prod.mk.inj polled).1.symm
      cases thrown with
      | some error =>
        obtain ⟨fault, noisy⟩ := DecodeState.observePoll_error polled
        exact ⟨_, rfl, .inl ⟨fault, fun quiet => noisy quiet.1⟩⟩
      | none =>
        have nextReached : decoder.Reaches next.dctx consumed delivered := by
          rw [same]; exact reached
        have nextSplits : next.Splits job.options delivered := by
          rw [same]
          exact ⟨splits.header, splits.written, splits.size, splits.complete, splits.within⟩
        dsimp only
        cases called : decoder.decompressStream next.dctx input with
        | mk dctx call =>
          cases call with
          | error taken name =>
            exact ⟨_, rfl, .inl ⟨rfl, fun quiet => quiet.2 nextReached part called⟩⟩
          | done taken produced result =>
            have calls : decoder.Calls consumed delivered input taken produced result :=
              ⟨none_, _, _, nextReached, called⟩
            have calledSplits : { next with dctx }.Splits job.options delivered :=
              ⟨nextSplits.header, nextSplits.written, nextSplits.size, nextSplits.complete,
                nextSplits.within⟩
            dsimp only
            cases taken_ : { next with dctx }.takePiece job produced with
            | mk after thrown =>
              cases thrown with
              | some error =>
                refine ⟨_, rfl, (calledSplits.takePiece_error taken_).imp (fun noisy =>
                  ⟨noisy.1, fun quiet => noisy.2 quiet.1⟩)
                  fun exceeds => ?_⟩
                -- What a limit refuses of the output so far it refuses of the whole.
                obtain ⟨rest, whole⟩ := part
                have onward := laws.grows (consumed ++ input) rest
                rw [whole] at onward
                exact exceeds.of_prefix ((laws.call_prefix calls).trans onward)
              | none =>
                obtain ⟨afterSplits, afterContext, -⟩ := calledSplits.takePiece_ok taken_
                have onwardReached : decoder.Reaches after.dctx (consumed ++ input.take taken)
                    (delivered ++ produced) := by
                  rw [show after.dctx = dctx from afterContext]
                  exact .call nextReached none_ called
                have onwardPart : consumed ++ input.take taken ++ input.drop taken <+: file := by
                  rw [StreamDecoder.Delivers.consumed_append]
                  exact part
                -- What the call has left of the chunk is decoded by the later calls.
                have onward := ih { after with lastResult := result } onwardReached
                  ⟨afterSplits.header, afterSplits.written, afterSplits.size, afterSplits.complete,
                    afterSplits.within⟩ onwardPart
                  (fun last => by
                    obtain ⟨whole, reports⟩ := laws.call_last calls last
                    rw [List.take_of_length_le (List.drop_eq_nil_iff.mp last)]
                    exact ⟨whole, reports⟩)
                  (by have less := laws.pending_lt calls; omega)
                rwa [StreamDecoder.Delivers.consumed_append] at onward

/-- The reads of a file end, and have then delivered what it stands for. -/
theorem decodeChunks_decodes (laws : decoder.Delivers decoded completes) {reads : List Bytes}
    (some_ : ∀ chunk ∈ reads, chunk ≠ [])
    (reached : decoder.Reaches state.dctx consumed (decoded consumed))
    (splits : state.Splits job.options (decoded consumed))
    (whole : consumed ++ reads.flatten = file)
    (reports : reads = [] → (state.lastResult = 0 ↔ completes consumed))
    (enough : file.length + (decoded file).length < fuel) :
    ∃ ended, decodeChunks decoder job fuel reads state = some ended ∧
      DecodesTo decoder decoded completes job file file ended := by
  induction reads generalizing consumed state with
  | nil =>
    rw [List.flatten_nil, List.append_nil] at whole
    subst whole
    exact ⟨_, rfl, reached, splits, reports rfl⟩
  | cons chunk chunks ih =>
    rw [List.flatten_cons, ← List.append_assoc] at whole
    have present : chunk ≠ [] := some_ chunk List.mem_cons_self
    have part : consumed ++ chunk <+: file := ⟨_, whole⟩
    -- The fuel suffices for each chunk, since it does for the whole file.
    have near : StreamDecoder.Delivers.pending decoded consumed (decoded consumed) chunk <
        fuel := by
      have inside := part.length_le
      have onward := (laws.grows (consumed ++ chunk) chunks.flatten).length_le
      rw [whole] at onward
      rw [List.length_append] at inside
      unfold StreamDecoder.Delivers.pending
      omega
    obtain ⟨⟨next, thrown⟩, ended, decodes⟩ := decodeChunk_decodes
      laws { state with consumed := state.consumed + chunk.length } reached
      ⟨splits.header, splits.written, splits.size, splits.complete, splits.within⟩ part
      (fun none_ => absurd none_ present) near
    rw [decodeChunks, if_neg present, ended]
    cases thrown with
    | some error => exact ⟨_, rfl, decodes⟩
    | none =>
      obtain ⟨nextReached, nextSplits, nextReports⟩ := decodes
      exact ih (fun other listed => some_ other (List.mem_cons_of_mem _ listed)) nextReached
        nextSplits whole fun _ => nextReports

end Decoding

end Loglib
