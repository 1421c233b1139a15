import Loglib.Basic.LastItems
import Loglib.Tailing.Prefill

/-! What the pre-fill delivers: the last complete lines of the file, and the start of the one that
is not complete. -/

namespace Loglib

/-- The scan budget suffices: it is off, or larger than the file, or as many last bytes hold a
newline more than lines are retained. -/
def WithinScanBudget (options : TailOptions) (text : Bytes) : Prop :=
  options.prefillMaxScanBytes = 0 ∨ text.length < options.prefillMaxScanBytes ∨
    max options.retentionLines 1 < (text.rtake options.prefillMaxScanBytes).count newline

/-- Whether the scan stays within its budget can be evaluated. -/
instance (options : TailOptions) (text : Bytes) : Decidable (WithinScanBudget options text) :=
  inferInstanceAs (Decidable (_ ∨ _ ∨ _))

/-- The scan does not run out of its budget before it has found what it looks for. -/
theorem WithinScanBudget.goesOn {options : TailOptions} {text : Bytes}
    (within : WithinScanBudget options text) {pos : Nat}
    (few : (text.drop pos).count newline ≤ max options.retentionLines 1) :
    ¬(options.prefillMaxScanBytes ≠ 0 ∧ options.prefillMaxScanBytes ≤ text.length - pos) := by
  rintro ⟨limited, spent⟩
  obtain off | larger | enough := within
  · exact limited off
  · omega
  · -- What the budget reaches has been scanned, so the newlines would have been seen.
    have reached : text.rtake options.prefillMaxScanBytes <:+ text.drop pos := by
      rw [List.rtake, show text.length - options.prefillMaxScanBytes = pos +
        (text.length - options.prefillMaxScanBytes - pos) by omega,
        ← List.drop_drop]
      exact List.drop_suffix _ _
    have fewer := reached.sublist.count_le newline
    omega

/-- A scan whose reads work and whose budget suffices finds a line start. -/
theorem scanBackwards_finds {options : TailOptions} {gaps : PrefillGaps}
    (positive : 0 < options.prefillChunkBytes)
    (keeps : ∀ offset, KeepsFirst (gaps.beforeChunk offset))
    (works : ∀ offset, gaps.chunkFails offset = false)
    {text : Bytes} (within : WithinScanBudget options text) (fuel : Nat)
    {pos newlinesSeen scannedBytes : Nat} {disk : Disk}
    {content : Bytes} (now : disk.content 0 = some content) (starts : text <+: content)
    (inside : pos ≤ text.length)
    (seen : newlinesSeen = (text.drop pos).count newline)
    (open_ : newlinesSeen ≤ max options.retentionLines 1)
    (scanned : scannedBytes = text.length - pos) :
    ∃ lineStart, (scanBackwards options gaps (some 0) fuel pos newlinesSeen scannedBytes disk).1 =
      some lineStart := by
  induction fuel generalizing pos newlinesSeen scannedBytes disk content with
  | zero => exact ⟨0, rfl⟩
  | succ fuel ih =>
    unfold scanBackwards
    split
    · exact ⟨0, rfl⟩
    · rename_i notTop
      have fits : min pos options.prefillChunkBytes ≤ pos := Nat.min_le_left _ _
      have some_ : 0 < min pos options.prefillChunkBytes := by omega
      generalize min pos options.prefillChunkBytes = chunkSize at fits some_
      simp only
      obtain ⟨more, later⟩ := Disk.acts_keepsFirst now (keeps (pos - chunkSize))
      generalize disk.acts (gaps.beforeChunk (pos - chunkSize)) = disk at later ⊢
      have stillStarts : text <+: content ++ more := starts.trans (List.prefix_append _ _)
      -- The read returns the whole chunk.
      obtain ⟨chunk, read⟩ : ∃ chunk,
        disk.readAtOffset (some 0) chunkSize (pos - chunkSize) (gaps.chunkFails (pos - chunkSize)) =
          chunk :=
        ⟨_, rfl⟩
      have parts : chunk ++ text.drop pos = text.drop (pos - chunkSize) := by
        rw [drop_eq_chunk_append stillStarts inside fits, ← read, works, Disk.readAtOffset,
          if_neg Bool.false_ne_true]
        simp [later]
      have whole : chunk.length = chunkSize := by
        have lengths := congrArg List.length parts
        simp only [List.length_append, List.length_drop] at lengths
        omega
      rw [read, if_neg (List.length_pos_iff.mp (whole ▸ some_))]
      have spec := scanChunk_spec chunk.reverse (Nat.lt_succ_of_le open_)
      generalize scanChunk (max options.retentionLines 1 + 1) chunk.reverse newlinesSeen =
        result at spec ⊢
      obtain ⟨count, found⟩ := result
      rcases spec with ⟨rfl, rfl, fewer⟩ | ⟨behind, before, -, rfl, -⟩
      · simp only
        rw [List.count_reverse] at fewer ⊢
        have stillSeen : newlinesSeen + chunk.count newline = (text.drop (pos - chunkSize)).count
            newline := by
          rw [← parts, List.count_append, seen, Nat.add_comm]
        have stillScanned : scannedBytes + chunk.length = text.length - (pos - chunkSize) := by
          omega
        rw [stillScanned, if_neg (within.goesOn (by omega))]
        exact ih later stillStarts (by omega) stillSeen (Nat.le_of_lt_succ fewer) rfl
      · exact ⟨_, rfl⟩

/-- A text has one complete line a separator. -/
theorem length_splitLines (text : Bytes) :
    (splitLines newline text).1.length = text.count newline := by
  induction text with
  | nil => rfl
  | cons byte text ih =>
    rw [splitLines]
    split_ifs with ends
    · rw [List.length_cons, ih, ends, List.count_cons_self]
    · rw [List.count_cons_of_ne ends, ← ih]
      -- A byte of a line makes that line longer, and no other line.
      rcases splitLines newline text with ⟨_ | ⟨line, lines⟩, rest⟩ <;> rfl

/-- What is retained is the last lines, and the line that is not complete. -/
theorem RetainsFrom.lines {retentionLines : Nat} {text : Bytes} {lineStart : Nat}
    (retains : RetainsFrom retentionLines text lineStart) :
    splitLines newline (text.drop lineStart) =
      ((splitLines newline text).1.rtake retentionLines, (splitLines newline text).2) := by
  have parts := splitLines_append newline (text.take lineStart) (text.drop lineStart)
  rw [List.take_append_drop, retains.atStart, List.nil_append] at parts
  have count := length_splitLines (text.drop lineStart)
  rw [parts, rtake_append]
  obtain top | full := retains.all
  · -- From the top, there are no lines in front.
    have few : (splitLines newline (text.drop lineStart)).1.length ≤ retentionLines :=
      count.trans_le retains.few
    rw [rtake_of_length_le few, top]
    simp [splitLines]
  · rw [count, full, Nat.sub_self, rtake_of_length_le (count.trans full).le]
    simp

namespace Tailing

/-- The producer behind a pre-fill of the last lines of a text. -/
def prefilled (retentionLines : Nat) (text : Bytes) : TailingBytesProducer :=
  ⟨some 0, text.length, false, (splitLines newline text).2,
    joinLines newline ((splitLines newline text).1.rtake retentionLines), 0, 0⟩

/-- The producer behind a pre-fill that has given up: it tails from the end. -/
def skippedToEnd (text : Bytes) : TailingBytesProducer := ⟨some 0, text.length, false, [], [], 0, 0⟩

/--
The pre-fill is exact.

With chunks of any positive size it delivers the last complete lines in order, as many as are
retained. The line that is not complete is pending, and tailing goes on behind it. Only a spent scan
budget makes it skip to the end. -/
theorem prefill_deliversLastLines (options : TailOptions) (positive : 0 < options.prefillChunkBytes)
    (content : Bytes)
    (gaps : PrefillGaps) (keepsChunks : ∀ offset, KeepsFirst (gaps.beforeChunk offset))
    (keepsBody : KeepsFirst gaps.beforeBody)
    (chunksWork : ∀ offset, gaps.chunkFails offset = false) (bodyWorks : gaps.bodyFails = false)
    (text : Bytes)
    (sized : ((Disk.ofContent content).acts gaps.beforeSize).content 0 = some text) :
    (open_ options content gaps).producer = prefilled (max options.retentionLines 1) text ∨
      ¬WithinScanBudget options text ∧
        (open_ options content gaps).producer = skippedToEnd text := by
  unfold open_ TailingBytesProducer.prefill
  simp only [TailingBytesProducer.start]
  generalize (Disk.ofContent content).acts gaps.beforeSize = disk at *
  have size : disk.sizeOfOpenHandle (some 0) = some text.length := by
    simp [Disk.sizeOfOpenHandle, sized]
  rw [size]
  split
  · rename_i nothing
    cases nothing
  · rename_i empty
    obtain rfl : text = [] := List.length_eq_zero_iff.mp (Option.some.inj empty)
    simp [prefilled, splitLines, List.rtake, joinLines]
  · rename_i fileSize some_ sizes
    obtain rfl : text.length = fileSize := Option.some.inj sizes
    have spec := scanBackwards_spec options keepsChunks text.length 0 sized List.prefix_rfl le_rfl
      le_rfl (by simp) (Nat.zero_le _)
    have finds (within : WithinScanBudget options text) :=
      scanBackwards_finds positive keepsChunks chunksWork within text.length
      sized List.prefix_rfl le_rfl (by simp) (Nat.zero_le _) (Nat.sub_self _).symm
    generalize scanBackwards options gaps (some 0) text.length text.length 0 0 disk =
      result at spec finds ⊢
    obtain ⟨start, disk'⟩ := result
    obtain ⟨⟨more, scanned⟩, retained⟩ := spec
    cases start with
    | none =>
      exact .inr ⟨fun within => (finds within).elim fun _ found =>
        absurd found.symm (Option.some_ne_none _), rfl⟩
    | some lineStart =>
      have retains := retained lineStart rfl
      have lines := retains.lines
      refine .inl ?_
      simp only
      split
      · -- The body is read in one piece, and split at its last newline.
        obtain ⟨evenMore, later⟩ := Disk.acts_keepsFirst scanned keepsBody
        have body : (disk'.acts gaps.beforeBody).readAtOffset (some 0) (text.length - lineStart)
          lineStart gaps.bodyFails =
            text.drop lineStart := by
          have inside := retains.inside
          rw [bodyWorks, Disk.readAtOffset, if_neg Bool.false_ne_true, Option.bind_some, later,
            Option.getD_some, List.append_assoc,
            List.drop_append_of_le_length inside, ← List.length_drop, List.take_left]
        rw [body, TailingBytesProducer.appendBytesAndSplit, List.nil_append, lines]
        rfl
      · -- Nothing is retained behind the end of the file.
        rename_i atEnd
        rw [List.drop_eq_nil_of_le (not_lt.mp atEnd)] at lines
        obtain ⟨noLines, noRest⟩ := Prod.mk.inj lines
        rw [prefilled, ← noLines, ← noRest]
        rfl

/-- Two of three lines are asked for in chunks of two bytes, and the start of a fourth is
pending. -/
theorem twoLines_prefilled :
    (open_ ⟨2, 3, 2, 0⟩ (bytes "a\nb\nc\nd") calmPrefill).producer = prefilled 2
      (bytes "a\nb\nc\nd") := by
  have keeps : KeepsFirst [] := fun _ member => nomatch member
  have exact_ := prefill_deliversLastLines ⟨2, 3, 2, 0⟩ (by decide) (bytes "a\nb\nc\nd") calmPrefill
    (fun _ => keeps) keeps
    (fun _ => rfl) rfl _ rfl
  exact exact_.resolve_right fun spent => spent.1 (.inl rfl)

/-- No line is asked for, and one is delivered. -/
theorem noLines_prefilled :
    (open_ ⟨0, 3, 2, 0⟩ (bytes "a\n") calmPrefill).producer.readyBuffer = bytes "a\n" ∧
      joinLines newline ((splitLines newline (bytes "a\n")).1.rtake 0) = [] := by
  decide

end Tailing

end Loglib
