import Loglib.Pipeline.StaticPipeline

/-! What the fields of a record show, and how continuation lines change it. -/

namespace Loglib

/-- A record as its text says it: the values of its fields by name, and the field that further lines
continue. -/
structure FieldRecord where
  fields : Bytes → Option LogValue
  target : Option Bytes

/-- A value that one more line of text continues. An empty one has nothing to be separated from. -/
def LogValue.continued (text : Bytes) : LogValue → LogValue
  | .string held => .string (held ++ newline :: text)
  | .monostate => .string text
  | value => value

namespace FieldRecord

/-- Some lines of text as one text. -/
def joinTexts : Bytes → List Bytes → Bytes :=
  List.foldl fun joined text => joined ++ newline :: text

end FieldRecord

namespace CompactLogValue

/-- The value of a slot whose texts lie in mapped bytes and in an arena. -/
def read (data arena : Bytes) : CompactLogValue → LogValue
  | .monostate => .monostate
  | .mmapSlice offset length => .string (slice data offset length.toNat)
  | .ownedString offset length => .string (slice arena offset length.toNat)
  | .dictRef _ => .monostate
  | .int64 value => .int64 value
  | .uint64 value => .uint64 value
  | .double value => .double value
  | .bool value => .bool value
  | .timestamp microseconds => .timestamp microseconds

/-- The slot is one that a parser makes, and its text lies within the bytes. -/
def Fits (data arena : Bytes) : CompactLogValue → Prop
  | .mmapSlice offset length => offset + length.toNat ≤ data.length ∧ data ≠ []
  | .ownedString offset length => offset + length.toNat ≤ arena.length
  | .dictRef _ => False
  | _ => True

variable {slot : CompactLogValue} {data arena : Bytes}

/-- A slot still fits and reads the same when its arena grows. -/
theorem Fits.append (fits : slot.Fits data arena) (more : Bytes) :
    slot.Fits data (arena ++ more) ∧ slot.read data (arena ++ more) = slot.read data arena := by
  -- Only a slot that points into the arena could notice that it grows.
  cases slot with
  | ownedString offset length =>
    have inside : offset + length.toNat ≤ arena.length := fits
    refine ⟨?_, congrArg LogValue.string (slice_append more inside)⟩
    show offset + length.toNat ≤ (arena ++ more).length
    rw [List.length_append]
    omega
  | _ => exact ⟨fits, rfl⟩

end CompactLogValue

/-- The fields of a line, read from mapped bytes and an arena, are those of the record. -/
structure Shows (keys : KeyIndex) (data arena : Bytes) (values : LineFields)
    (record : FieldRecord) : Prop where
  reads : ∀ name, record.fields name = ((keys.find name).bind values.lookup).map (·.read data arena)
  fits : ∀ id slot, values.lookup id = some slot → slot.Fits data arena

namespace Shows

variable {keys : KeyIndex} {data arena : Bytes} {values : LineFields} {record : FieldRecord}

/-- The fields still show the record when the arena grows. -/
theorem append (shows : Shows keys data arena values record) (more : Bytes) :
    Shows keys data (arena ++ more) values record := by
  refine ⟨fun name => ?_, fun id slot held => ((shows.fits id slot held).append more).1⟩
  rw [shows.reads]
  -- A name that has a slot reads the same text from the longer arena.
  cases found : (keys.find name).bind values.lookup with
  | none => rfl
  | some slot =>
    obtain ⟨id, -, held⟩ := Option.bind_eq_some_iff.mp found
    exact congrArg some ((shows.fits id slot held).append more).2.symm

end Shows

section Continuations

variable {keys : KeyIndex} {data arena : Bytes} {values : LineFields} {record : FieldRecord}

/-- A new text at the end of the arena fits and is read back, as long as 32 bits hold its length. -/
theorem ownedSlot_reads (data arena : Bytes) {text : Bytes} (short : text.length < 2 ^ 32) :
    (ownedSlot arena.length text.length).Fits data (arena ++ text) ∧
      (ownedSlot arena.length text.length).read data (arena ++ text) = .string text := by
  have length : (UInt32.ofNat text.length).toNat = text.length := UInt32.toNat_ofNat_of_lt' short
  refine ⟨?_, ?_⟩
  · show arena.length + (UInt32.ofNat text.length).toNat ≤ (arena ++ text).length
    rw [length, List.length_append]
  · show LogValue.string (slice (arena ++ text) arena.length (UInt32.ofNat text.length).toNat) = _
    rw [length, slice_append_self]

/-- A text at the end of the arena grows in place. -/
theorem ownedSlot_grows (data : Bytes) {arena more : Bytes} {offset length : Nat}
    (last : offset + length = arena.length)
    (short : length + more.length < 2 ^ 32) :
    (ownedSlot offset (length + more.length)).Fits data (arena ++ more) ∧
      (ownedSlot offset (length + more.length)).read data (arena ++ more) =
        .string (slice arena offset length ++ more) := by
  have front : (arena.take offset).length = offset := by
    rw [List.length_take]
    omega
  have tail : slice arena offset length = arena.drop offset := by
    rw [slice, if_pos last.le, List.take_of_length_le]
    rw [List.length_drop]
    omega
  have sized : (slice arena offset length ++ more).length = length + more.length := by
    rw [List.length_append, length_slice last.le]
  -- The arena is its front and the text, and the text with the new bytes stands behind that front.
  have reads := ownedSlot_reads data (arena.take offset) (sized.trans_lt short)
  rw [sized, front, ← List.append_assoc, tail, List.take_append_drop] at reads
  rw [tail]
  exact reads

/-- What a splice makes of its target: a slot with the longer text, or nothing where there is no
text to continue. -/
inductive Taken (data arena : Bytes) (values : LineFields) (id : KeyId) (text : Bytes) :
    LineFields → Bytes → Prop where
  | kept (same : ∀ slot, values.lookup id = some slot →
      (slot.read data arena).continued text = slot.read data arena) :
      Taken data arena values id text values arena
  | put {old slot : CompactLogValue} (more : Bytes) (located : values.lookup id = some old)
      (fits : slot.Fits data (arena ++ more))
      (reads : slot.read data (arena ++ more) = (old.read data arena).continued text) :
      Taken data arena values id text (values.put id slot) (arena ++ more)

/-- The value has no text, or one with a 32-bit length. -/
def LogValue.Short (value : LogValue) : Prop := ∀ text, value = .string text → text.length < 2 ^ 32

/-- Within a batch and in the streaming loop, a target takes the text behind its newline. -/
theorem extendContinuationTarget_taken {id : KeyId} {text : Bytes}
    (fits : ∀ slot, values.lookup id = some slot → slot.Fits data arena)
    (short : ∀ slot, values.lookup id = some slot → ((slot.read data arena).continued text).Short) :
    Taken data arena values id text
      (extendContinuationTarget values arena (some id) (newline :: text) data).2.1
      (extendContinuationTarget values arena (some id) (newline :: text) data).2.2 := by
  unfold extendContinuationTarget
  simp only [List.cons_ne_nil, if_false]
  cases located : values.lookup id with
  | none => exact .kept fun slot held => by rw [located] at held; cases held
  | some slot =>
    have fits := fits slot located
    have short := short slot located
    have kept (same : (slot.read data arena).continued text = slot.read data arena) :
        Taken data arena values id text values arena := by
      refine .kept fun other held => ?_
      obtain rfl := Option.some.inj (located.symm.trans held)
      exact same
    cases slot with
    | ownedString offset length =>
      have inside : offset + length.toNat ≤ arena.length := fits
      have small := short _ rfl
      rw [List.length_append, length_slice inside] at small
      simp only
      split
      · rename_i last
        obtain ⟨fitsNow, reads⟩ := ownedSlot_grows data last small
        exact .put _ located fitsNow reads
      · -- The text moves to the end of the arena and takes the line there.
        have moved : (arena.drop offset).take length.toNat = slice arena offset length.toNat := by
          rw [slice, if_pos inside]
        have sized : (slice arena offset length.toNat ++ newline :: text).length =
            length.toNat + (newline :: text).length := by
          rw [List.length_append, length_slice inside]
        obtain ⟨fitsNow, reads⟩ := ownedSlot_reads data arena (sized.trans_lt small)
        rw [sized] at fitsNow reads
        rw [List.append_assoc, moved]
        exact .put _ located fitsNow reads
    | mmapSlice offset length =>
      have inside : offset + length.toNat ≤ data.length := fits.1
      have small := short _ rfl
      rw [List.length_append, length_slice inside] at small
      have mapped : ¬(data = [] ∨ data.length < offset + length.toNat) := by
        rintro (none_ | past)
        · exact fits.2 none_
        · omega
      have copied : (data.drop offset).take length.toNat = slice data offset length.toNat := by
        rw [slice, if_pos inside]
      have sized : (slice data offset length.toNat ++ newline :: text).length =
          length.toNat + (newline :: text).length := by
        rw [List.length_append, length_slice inside]
      obtain ⟨fitsNow, reads⟩ := ownedSlot_reads data arena (sized.trans_lt small)
      rw [sized] at fitsNow reads
      simp only
      rw [if_neg mapped, List.append_assoc, copied]
      exact .put _ located fitsNow reads
    | monostate =>
      obtain ⟨fitsNow, reads⟩ := ownedSlot_reads data arena (short text rfl)
      simp only [List.head?_cons, if_true, List.drop_succ_cons, List.drop_zero]
      exact .put _ located fitsNow reads
    | dictRef vid => exact fits.elim
    | _ => exact kept rfl

/-- Across batches, a held record's target takes the text behind a newline. -/
theorem spliceCrossBatchContinuation_taken {line : LogLine} {file : LogFile} {id : KeyId}
    {text : Bytes}
    (some_ : text ≠ [])
    (fits : ∀ slot, line.values.lookup id = some slot → slot.Fits file.data file.ownedStrings)
    (short : ∀ slot, line.values.lookup id = some slot →
      ((slot.read file.data file.ownedStrings).continued text).Short) :
    Taken file.data file.ownedStrings line.values id text
      (spliceCrossBatchContinuation line file (some id) text).2.1.values
      (spliceCrossBatchContinuation line file (some id) text).2.2.ownedStrings := by
  have found : line.findCompact id = line.values.lookup id := rfl
  unfold spliceCrossBatchContinuation
  simp only [if_neg some_, found]
  -- A line without the key takes nothing.
  cases located : line.values.lookup id with
  | none => exact .kept fun slot held => by rw [located] at held; cases held
  | some slot =>
    have fits := fits slot located
    have short := short slot located
    -- A value that is no text is left alone, and that is what its continuation is.
    have kept (same : (slot.read file.data file.ownedStrings).continued text =
      slot.read file.data file.ownedStrings) :
        Taken file.data file.ownedStrings line.values id text line.values file.ownedStrings := by
      refine .kept fun other held => ?_
      obtain rfl := Option.some.inj (located.symm.trans held)
      exact same
    -- A longer text is written to the arena as a whole.
    have joins {joined : Bytes}
      (same : LogValue.string joined = (slot.read file.data file.ownedStrings).continued text) :
        Taken file.data file.ownedStrings line.values id text
          (appendJoined line file id joined).2.1.values
          (appendJoined line file id joined).2.2.ownedStrings := by
      obtain ⟨fitsNow, reads⟩ :=
        ownedSlot_reads file.data file.ownedStrings (short joined same.symm)
      exact .put _ located fitsNow (reads.trans same)
    cases slot with
    | ownedString offset length =>
      have inside : offset + length.toNat ≤ file.ownedStrings.length := fits
      simp only
      -- The text lies at the end of the arena, where it can grow in place.
      split
      · rename_i last
        have small := short _ rfl
        rw [List.length_append, length_slice inside] at small
        obtain ⟨fitsNow, reads⟩ := ownedSlot_grows file.data last small
        exact .put _ located fitsNow reads
      · exact joins rfl
    | mmapSlice offset length =>
      -- A slice of the file is peeked and copied.
      have peeked : (CompactLogValue.mmapSlice offset length).peekStringView
        (some (.file file)) line.lineId =
          some (slice file.data offset length.toNat) := by
        have sized := length_slice fits.1
        have same : (LineSource.file file).resolveMmapBytes offset length.toNat =
            slice file.data offset length.toNat := rfl
        simp only [CompactLogValue.peekStringView, same]
        rw [if_neg]
        simp only [Bool.and_eq_true, List.isEmpty_iff, bne_iff_ne, ne_eq, not_and_not_right]
        intro none_
        rw [none_, List.length_nil] at sized
        exact UInt32.toNat_inj.mp sized.symm
      simp only [peeked]
      exact joins rfl
    | monostate => exact joins rfl
    | dictRef vid => exact fits.elim
    | _ => exact kept rfl

/-- A splice changes no more of a file than its arena, and no more of a line than its fields. -/
theorem spliceCrossBatchContinuation_frame (line : LogLine) (file : LogFile) (key : Option KeyId)
    (text : Bytes) :
    (spliceCrossBatchContinuation line file key text).2.2.data = file.data ∧
      (spliceCrossBatchContinuation line file key text).2.1.source = line.source := by
  unfold spliceCrossBatchContinuation
  repeat' split
  all_goals exact ⟨rfl, rfl⟩

end Continuations

end Loglib
