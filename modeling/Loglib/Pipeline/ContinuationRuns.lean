import Loglib.Pipeline.FieldTexts

/-! Continuation lines spliced into a record, one at a time or as blocks, within a batch
or across batches. -/

namespace Loglib

/-- A record whose continuation lines are still coming, with the arena and the mapped bytes of its
texts. A pending record of the streaming loop has no mapped bytes. -/
structure HeldLine where
  line : LogLine
  file : LogFile

/-- Some continuation lines in one splice. -/
inductive SplicePiece where
  /-- `ExtendContinuationTarget`: each line stands behind its newline. -/
  | within (lines : List Bytes)
  /-- `SpliceCrossBatchContinuation`: there is a newline between two lines. -/
  | across (lines : List Bytes)

namespace SplicePiece

/-- The lines of a piece. -/
def lines : SplicePiece → List Bytes
  | .within lines => lines
  | .across lines => lines

/-- The lines with a newline between two of them. -/
def joined : List Bytes → Bytes
  | [] => []
  | first :: rest => FieldRecord.joinTexts first rest

end SplicePiece

namespace HeldLine

/-- Splice one piece. -/
def splice (held : HeldLine) (key : Option KeyId) : SplicePiece → HeldLine
  | .within lines =>
    let (_, values, arena) := extendContinuationTarget held.line.values held.file.ownedStrings key
      (lines.flatMap (newline :: ·)) held.file.data
    ⟨{ held.line with values }, { held.file with ownedStrings := arena }⟩
  | .across lines =>
    let (_, line, file) := spliceCrossBatchContinuation held.line held.file key
      (SplicePiece.joined lines)
    ⟨line, file⟩

/-- Splice pieces one after the other. -/
def spliceAll (held : HeldLine) (key : Option KeyId) (pieces : List SplicePiece) : HeldLine :=
  pieces.foldl (fun held piece => held.splice key piece) held

/-- What a slot reads. -/
def read (held : HeldLine) (slot : CompactLogValue) : LogValue :=
  slot.read held.file.data held.file.ownedStrings

/-- The value of a field. -/
def value (held : HeldLine) (id : KeyId) : Option LogValue :=
  (held.line.values.lookup id).map held.read

/-- The slot's text lies within the bytes. -/
def Holds (held : HeldLine) (slot : CompactLogValue) : Prop :=
  slot.Fits held.file.data held.file.ownedStrings

end HeldLine

/-- A value with lines behind it: a text takes each line behind a newline. A bare key has nothing to
separate the first line from, and other values take no text. -/
def LogValue.withLines (lines : List Bytes) : LogValue → LogValue
  | .string held => .string (held ++ lines.flatMap (newline :: ·))
  | .monostate => if lines = [] then .monostate else .string ((lines.flatMap (newline :: ·)).drop 1)
  | value => value

namespace LogValue

/-- Behind the first line, each line stands behind a newline. -/
theorem joinTexts_eq (first : Bytes) (rest : List Bytes) :
    FieldRecord.joinTexts first rest = first ++ rest.flatMap (newline :: ·) := by
  -- The texts are joined one by one with line ends between them.
  induction rest generalizing first with
  | nil => simp [FieldRecord.joinTexts]
  | cons text rest ih =>
    have next : FieldRecord.joinTexts first (text :: rest) = FieldRecord.joinTexts
        (first ++ newline :: text) rest := rfl
    rw [next, ih]
    simp

/-- Some lines are taken as one text. -/
theorem continued_joinTexts (value : LogValue) (first : Bytes) (rest : List Bytes) :
    value.continued (FieldRecord.joinTexts first rest) = value.withLines (first :: rest) := by
  cases value <;> simp [continued, withLines, joinTexts_eq]

/-- No lines change nothing. -/
@[simp] theorem withLines_nil (value : LogValue) : value.withLines [] = value := by
  cases value <;> simp [withLines]

/-- Lines behind lines. -/
theorem withLines_append (value : LogValue) (lines more : List Bytes) :
    value.withLines (lines ++ more) = (value.withLines lines).withLines more := by
  cases value with
  | monostate =>
    -- The first newline of a bare key is dropped once, with its first line.
    cases lines with
    | nil => simp [withLines]
    | cons first rest => simp [withLines]
  | string held => simp [withLines]
  | _ => rfl

/-- Fewer lines are shorter. -/
theorem short_of_append {value : LogValue} {lines more : List Bytes}
    (short : (value.withLines (lines ++ more)).Short) :
    (value.withLines lines).Short := by
  intro text same
  -- The lines behind only make the text longer.
  have longer := short (text ++ more.flatMap (newline :: ·)) (by rw [withLines_append, same]; rfl)
  rw [List.length_append] at longer
  omega

end LogValue

namespace HeldLine

variable {held after : HeldLine} {key : Option KeyId} {lines more : List Bytes}

/-- The record with lines spliced into its target: the target's value has them, other fields have
the slots they had, and what the arena and the mapped bytes held is read as before. -/
structure Spliced (held : HeldLine) (key : Option KeyId) (lines : List Bytes)
    (after : HeldLine) : Prop where
  target : ∀ id, key = some id → after.value id = (held.value id).map (·.withLines lines)
  holds : ∀ id, key = some id → (∀ slot, held.line.values.lookup id = some slot → held.Holds slot) →
    ∀ slot, after.line.values.lookup id = some slot → after.Holds slot
  others : ∀ id, key ≠ some id → after.line.values.lookup id = held.line.values.lookup id
  reads : ∀ slot, held.Holds slot → after.Holds slot ∧ after.read slot = held.read slot

/-- No lines, no change. -/
theorem Spliced.refl (held : HeldLine) (key : Option KeyId) : Spliced held key [] held :=
  ⟨fun id _ => by simp, fun _ _ fits => fits, fun _ _ => rfl, fun _ fits => ⟨fits, rfl⟩⟩

/-- Lines after lines. -/
theorem Spliced.trans {last : HeldLine} (first : Spliced held key lines after)
    (second : Spliced after key more last) :
    Spliced held key (lines ++ more) last := by
  refine ⟨fun id isKey => ?_, fun id isKey fits =>
    second.holds id isKey (first.holds id isKey fits), fun id other => ?_,
    fun slot fits => ?_⟩
  · rw [second.target id isKey, first.target id isKey, Option.map_map]
    -- The target takes the lines of both pieces in order.
    congr 1
    funext value
    exact (LogValue.withLines_append value lines more).symm
  · rw [second.others id other, first.others id other]
  · obtain ⟨holds, reads⟩ := first.reads slot fits
    obtain ⟨holds', reads'⟩ := second.reads slot holds
    exact ⟨holds', reads'.trans reads⟩

/-- What the target takes as one text, it has as lines. -/
theorem spliced_of_taken {id : KeyId} {first : Bytes} {rest : List Bytes} {values : LineFields}
    {arena : Bytes}
    (taken : Taken held.file.data held.file.ownedStrings held.line.values id
    (FieldRecord.joinTexts first rest) values arena)
    (same : after.line.values = values) (grown : after.file.ownedStrings = arena)
    (data : after.file.data = held.file.data) :
    Spliced held (some id) (first :: rest) after := by
  have reading : after.read = fun slot => slot.read held.file.data arena := by
    funext slot
    rw [read, data, grown]
  have holding : after.Holds = fun slot => slot.Fits held.file.data arena := by
    funext slot
    rw [Holds, data, grown]
  cases taken with
  | kept unchanged =>
    refine ⟨?_, ?_, fun other _ => by rw [same], fun slot fits => ?_⟩
    · intro target isTarget
      obtain rfl := Option.some.inj isTarget
      unfold value
      rw [same, reading]
      cases located : held.line.values.lookup id with
      | none => rfl
      | some slot =>
        -- The slot stays because its value takes no text.
        have stays := unchanged slot located
        rw [LogValue.continued_joinTexts] at stays
        exact congrArg some stays.symm
    · intro target isTarget fits slot located
      obtain rfl := Option.some.inj isTarget
      rw [same] at located
      rw [holding]
      exact fits slot located
    · rw [holding, reading]
      exact ⟨fits, rfl⟩
  | @put old slot more located fits reads =>
    refine ⟨?_, ?_, ?_, fun other inside => ?_⟩
    · intro target isTarget
      obtain rfl := Option.some.inj isTarget
      unfold value
      -- The new slot reads the old text with the lines behind it.
      rw [same, reading, SortedMap.lookup_put, if_pos rfl, located, Option.map_some,
        Option.map_some, reads,
        LogValue.continued_joinTexts]
      rfl
    · intro target isTarget _ other found
      obtain rfl := Option.some.inj isTarget
      rw [same, SortedMap.lookup_put, if_pos rfl] at found
      obtain rfl := Option.some.inj found
      rw [holding]
      exact fits
    · intro other differs
      have unlike : other ≠ id := fun equal => differs (congrArg some equal.symm)
      rw [same, SortedMap.lookup_put, if_neg unlike]
    · rw [holding, reading]
      -- The arena only grew at its end, so what lay in it still does.
      exact CompactLogValue.Fits.append inside more

/-- The value of the target stays short with more lines. -/
def Stays (held : HeldLine) (key : Option KeyId) (lines : List Bytes) : Prop :=
  ∀ id slot, key = some id → held.line.values.lookup id = some slot →
    ((held.read slot).withLines lines).Short

/-- Without a target nothing is spliced. -/
theorem splice_none (held : HeldLine) (piece : SplicePiece) : held.splice none piece = held := by
  cases piece <;> rfl

/-- One piece is spliced into a target whose text lies within the bytes. -/
theorem splice_spliced (piece : SplicePiece) (nonempty : ∀ line ∈ piece.lines, line ≠ [])
    (fits : ∀ id slot, key = some id → held.line.values.lookup id = some slot → held.Holds slot)
    (short : held.Stays key piece.lines) :
    Spliced held key piece.lines (held.splice key piece) := by
  cases key with
  | none =>
    rw [splice_none]
    refine ⟨fun _ isKey => ?_, fun _ isKey => ?_, fun _ _ => rfl, fun _ inside => ⟨inside, rfl⟩⟩
    · cases isKey
    · cases isKey
  | some id =>
    cases piece with
    | within lines =>
      cases lines with
      | nil => exact .refl held (some id)
      | cons first rest =>
        -- In place, the lines come as one block with a newline in front.
        have block : (first :: rest).flatMap (newline :: ·) = newline ::
            FieldRecord.joinTexts first rest := by
          rw [LogValue.joinTexts_eq]
          simp
        refine spliced_of_taken (extendContinuationTarget_taken (fun slot =>
          fits id slot rfl) fun slot located => ?_)
          ?_ ?_ rfl
        · have short := short id slot rfl located
          rwa [SplicePiece.lines, ← LogValue.continued_joinTexts] at short
        · rw [splice, block]
        · rw [splice, block]
    | across lines =>
      cases lines with
      | nil =>
        have idle : held.splice (some id) (.across []) = held := rfl
        rw [idle]
        exact .refl held (some id)
      | cons first rest =>
        -- Across batches, the joined text is not empty, so it is spliced.
        have some_ : FieldRecord.joinTexts first rest ≠ [] := by
          rw [LogValue.joinTexts_eq]
          intro none_
          exact nonempty first List.mem_cons_self (List.append_eq_nil_iff.mp none_).1
        refine spliced_of_taken (spliceCrossBatchContinuation_taken some_ (fun slot =>
          fits id slot rfl)
          fun slot located => ?_) rfl rfl
          (spliceCrossBatchContinuation_frame held.line held.file (some id)
            (FieldRecord.joinTexts first rest)).1
        have short := short id slot rfl located
        rwa [SplicePiece.lines, ← LogValue.continued_joinTexts] at short

/-- Continuation lines of a record, in any pieces and by either function, give its target one and
the same value: the old text, and each line behind a newline. A bare key takes the lines without the
first newline. Every other slot, of this record and of others, reads as before. -/
theorem spliceAll_spliced (held : HeldLine) (key : Option KeyId) (pieces : List SplicePiece)
    (nonempty : ∀ piece ∈ pieces, ∀ line ∈ piece.lines, line ≠ [])
    (fits : ∀ id slot, key = some id → held.line.values.lookup id = some slot → held.Holds slot)
    (short : held.Stays key (pieces.flatMap SplicePiece.lines)) :
    Spliced held key (pieces.flatMap SplicePiece.lines) (held.spliceAll key pieces) := by
  induction pieces generalizing held with
  | nil => exact .refl held key
  | cons piece rest ih =>
    rw [List.flatMap_cons] at short ⊢
    -- The first piece is short because all the lines together are.
    have first := splice_spliced piece (nonempty piece List.mem_cons_self) fits
      fun id slot isKey located =>
      LogValue.short_of_append (short id slot isKey located)
    refine first.trans (ih (held.splice key piece) (fun other member =>
      nonempty other (List.mem_cons_of_mem _ member)) ?_ ?_)
    · exact fun id slot isKey => first.holds id isKey (fun slot => fits id slot isKey) slot
    · intro id slot isKey located
      have now := first.target id isKey
      unfold value at now
      rw [located, Option.map_some] at now
      -- What the target has now is the old value with the lines of the first piece.
      obtain ⟨value, was, same⟩ := Option.map_eq_some_iff.mp now.symm
      obtain ⟨old, held_, rfl⟩ := Option.map_eq_some_iff.mp was
      rw [← same, ← LogValue.withLines_append]
      exact short id old isKey held_

/-- A record with one field, whose text starts an arena. -/
def ofSlot (slot : CompactLogValue) (arena : Bytes) : HeldLine :=
  ⟨.ofField 0 0 0 slot, { LogFile.ofData [] with ownedStrings := arena }⟩

/-- One continuation in the same range, then a block of two. -/
theorem spliceAll_in_place_then_block :
    Spliced (ofSlot (.ownedString 0 1) (bytes "a")) (some 0) [bytes "b", bytes "c", bytes "d"]
      ((ofSlot (.ownedString 0 1) (bytes "a")).spliceAll (some 0) [.within [bytes "b"],
        .across [bytes "c", bytes "d"]]) := by
  -- The slot is the only one of the line.
  have held : ∀ id slot, some (0 : KeyId) = some id →
      (ofSlot (.ownedString 0 1) (bytes "a")).line.values.lookup id = some slot →
        slot = .ownedString 0 1 := by
    intro id slot isKey located
    obtain rfl := Option.some.inj isKey
    exact (Option.some.inj located).symm
  refine spliceAll_spliced (ofSlot (.ownedString 0 1) (bytes "a")) (some 0)
    [.within [bytes "b"], .across [bytes "c", bytes "d"]] (by decide) ?_ ?_
  · intro id slot isKey located
    rw [held id slot isKey located]
    exact show 0 + 1 ≤ 1 by decide
  · intro id slot isKey located text same
    rw [held id slot isKey located] at same
    obtain rfl := LogValue.string.inj same
    decide

/-- A text has less than `2 ^ 32` bytes. -/
theorem value_ne_long (held : HeldLine) (id : KeyId) {text : Bytes} (long : 2 ^ 32 ≤ text.length) :
    held.value id ≠ some (.string text) := by
  intro same
  obtain ⟨slot, -, reads⟩ := Option.map_eq_some_iff.mp same
  unfold read at reads
  have short : text.length < 2 ^ 32 := by
    -- Only slices of bytes read as texts, and their lengths have 32 bits.
    cases slot <;> simp only [CompactLogValue.read, LogValue.string.injEq, reduceCtorEq] at reads
    all_goals
      subst reads
      exact (length_slice_le _ _ _).trans_lt (UInt32.toNat_lt _)
  omega

/-- A line behind a text makes it longer than the line. -/
theorem length_withLine (text : Bytes) (count : Nat) (byte : Byte) :
    count ≤ (text ++ [List.replicate count byte].flatMap (newline :: ·)).length := by
  simp only [List.flatMap_cons, List.flatMap_nil, List.append_nil, List.length_append,
    List.length_cons,
    List.length_replicate]
  omega

/-- A bare key takes its first line without a newline, and a text forgets the bytes that its 32 bits
do not count. -/
theorem spliceAll_bare_and_long :
    ((ofSlot .monostate []).spliceAll (some 0) [.across [bytes "a"]]).value 0 ≠
        some (.string ([] ++ [bytes "a"].flatMap (newline :: ·))) ∧
      ((ofSlot (.ownedString 0 1) (bytes "x")).spliceAll
        (some 0) [.across [List.replicate (2 ^ 32) 0]]).value 0 ≠
        some (.string (bytes "x" ++ [List.replicate (2 ^ 32) 0].flatMap (newline :: ·))) :=
  ⟨by decide, value_ne_long _ _ (length_withLine (bytes "x") (2 ^ 32) 0)⟩

end HeldLine

end Loglib
