import Loglib.Tailing.WholeLines

/-! The pre-fill starts at a line start, behind all but the last lines, and from there on tailing
delivers whole lines. -/

namespace Loglib

/-- The backwards scan of a chunk: it counts newlines, and stops behind the one that was
looked for. -/
theorem scanChunk_spec {targetNewlines : Nat} (reversed : Bytes) {newlinesSeen : Nat}
    (open_ : newlinesSeen < targetNewlines) :
    ((scanChunk targetNewlines reversed newlinesSeen).2 = none ∧
        (scanChunk targetNewlines reversed newlinesSeen).1 = newlinesSeen + reversed.count newline ∧
        newlinesSeen + reversed.count newline < targetNewlines) ∨
      ∃ behind before, reversed = behind ++ newline :: before ∧
        (scanChunk targetNewlines reversed newlinesSeen).2 = some (before.length + 1) ∧
        newlinesSeen + behind.count newline + 1 = targetNewlines := by
  -- The scan reads backwards, so the induction is on the reversed chunk.
  induction reversed generalizing newlinesSeen with
  | nil => exact .inl ⟨rfl, rfl, open_⟩
  | cons byte reversed ih =>
    by_cases ends : byte = newline
    · -- The newline that has been asked for ends the scan in front of the line behind it.
      by_cases last : newlinesSeen + 1 = targetNewlines
      · refine .inr ⟨[], reversed, by rw [ends, List.nil_append], ?_, last⟩
        rw [scanChunk, if_pos ends, if_pos last]
      · have fewer : newlinesSeen + 1 < targetNewlines := by omega
        rw [scanChunk, if_pos ends, if_neg last]
        rcases ih fewer with ⟨none_, count, fewer⟩ | ⟨behind, before, rfl, found, count⟩
        · rw [ends, List.count_cons_self]
          exact .inl ⟨none_, by omega, by omega⟩
        · refine .inr ⟨byte :: behind, before, rfl, found, ?_⟩
          rw [ends, List.count_cons_self]
          omega
    · -- Another byte is passed over.
      rw [scanChunk, if_neg ends]
      rcases ih open_ with ⟨none_, count, fewer⟩ | ⟨behind, before, rfl, found, count⟩
      · rw [List.count_cons_of_ne ends]
        exact .inl ⟨none_, count, fewer⟩
      · refine .inr ⟨byte :: behind, before, rfl, found, ?_⟩
        rw [List.count_cons_of_ne ends]
        exact count

/-- Behind a newline is a line start. -/
theorem splitLines_snoc_newline (front : Bytes) :
    (splitLines newline (front ++ [newline])).2 = [] := by
  rw [splitLines_append, splitLines_line newline (not_mem_splitLines newline front).2 []]
  rfl

/-- The retained lines of a text start at an offset: a line start with as many lines behind it as
are retained, or the top with at most as many. -/
structure RetainsFrom (retentionLines : Nat) (text : Bytes) (lineStart : Nat) : Prop where
  inside : lineStart ≤ text.length
  atStart : (splitLines newline (text.take lineStart)).2 = []
  few : (text.drop lineStart).count newline ≤ retentionLines
  all : lineStart = 0 ∨ (text.drop lineStart).count newline = retentionLines

/-- A text with few lines is retained from its top. -/
theorem retainsFrom_top {retentionLines : Nat} {text : Bytes}
    (few : (text.drop 0).count newline ≤ retentionLines) :
    RetainsFrom retentionLines text 0 :=
  ⟨Nat.zero_le _, by simp [splitLines], few, .inl rfl⟩

/-- None of the actions cuts the file that was opened first. -/
def KeepsFirst (actions : List DiskAction) : Prop := ∀ size, .truncate 0 size ∉ actions

namespace Disk

/-- Without a truncation a file only gets longer. -/
theorem acts_keepsFirst {disk : Disk} {content : Bytes} (now : disk.content 0 = some content)
    {actions : List DiskAction} (keeps : KeepsFirst actions) :
    ∃ more, (disk.acts actions).content 0 = some (content ++ more) := by
  induction actions generalizing disk content with
  | nil => exact ⟨[], by rw [List.append_nil]; exact now⟩
  | cons action actions ih =>
    have others : KeepsFirst actions :=
      fun size member => keeps size (List.mem_cons_of_mem _ member)
    -- One action adds bytes at the end, or none.
    have one : ∃ more, (disk.act action).content 0 = some (content ++ more) := by
      obtain ⟨own, found, rfl⟩ := Option.map_eq_some_iff.mp now
      cases action with
      | append file text =>
        rw [Disk.content, act, List.getElem?_modify, found]
        by_cases same : file = 0
        · exact ⟨text, by simp [same, TailedFile.append]⟩
        · exact ⟨[], by simp [same]⟩
      | truncate file size =>
        have other : file ≠ 0 := fun same => keeps size (same ▸ List.mem_cons_self)
        rw [Disk.content, act, List.getElem?_modify, found]
        exact ⟨[], by simp [other]⟩
      | vanish => exact ⟨[], by rw [List.append_nil]; exact now⟩
      | restore => exact ⟨[], by rw [List.append_nil]; exact now⟩
      | recreate =>
        have bound := (List.getElem?_eq_some_iff.mp found).1
        refine ⟨[], ?_⟩
        rw [Disk.content, act, List.getElem?_append_left bound, found, List.append_nil]
        rfl
    obtain ⟨more, after⟩ := one
    obtain ⟨evenMore, later⟩ := ih after others
    exact ⟨more ++ evenMore, by rw [Disk.acts, List.foldl_cons, ← List.append_assoc]; exact later⟩

end Disk

/-- A text that a chunk is part of, cut at the ends of the chunk. -/
theorem drop_eq_chunk_append {text content : Bytes} (starts : text <+: content)
    {pos chunkSize : Nat}
    (inside : pos ≤ text.length) (fits : chunkSize ≤ pos) :
    text.drop (pos - chunkSize) = (content.drop (pos - chunkSize)).take chunkSize ++
      text.drop pos := by
  obtain ⟨more, rfl⟩ := starts
  have split := List.take_append_drop chunkSize (text.drop (pos - chunkSize))
  rw [List.drop_drop, Nat.sub_add_cancel fits] at split
  rw [List.drop_append_of_le_length (by omega),
    List.take_append_of_le_length (by rw [List.length_drop]; omega)]
  exact split.symm

/-- The scan of a file that is not cut meanwhile finds the start of the retained lines, or
gives up. -/
theorem scanBackwards_spec (options : TailOptions) {gaps : PrefillGaps}
    (keeps : ∀ offset, KeepsFirst (gaps.beforeChunk offset)) {text : Bytes} (fuel : Nat)
    {pos newlinesSeen : Nat}
    (scannedBytes : Nat) {disk : Disk} {content : Bytes} (now : disk.content 0 = some content)
    (starts : text <+: content) (enough : pos ≤ fuel)
    (inside : pos ≤ text.length) (seen : newlinesSeen = (text.drop pos).count newline)
    (open_ : newlinesSeen ≤ max options.retentionLines 1) :
    (∃ more, (scanBackwards options gaps (some 0) fuel pos newlinesSeen scannedBytes disk).2.content
      0 =
        some (content ++ more)) ∧
      ∀ lineStart, (scanBackwards options gaps (some 0) fuel pos newlinesSeen scannedBytes disk).1 =
        some lineStart →
        RetainsFrom (max options.retentionLines 1) text lineStart := by
  induction fuel generalizing pos newlinesSeen scannedBytes disk content with
  -- Without fuel the scan stands at the top, and keeps the whole text.
  | zero =>
    have atTop : pos = 0 := Nat.le_zero.mp enough
    exact ⟨⟨[], by rw [List.append_nil]; exact now⟩, fun lineStart found =>
      Option.some.inj found ▸ retainsFrom_top (by rw [← atTop, ← seen]; exact open_)⟩
  | succ fuel ih =>
    unfold scanBackwards
    split
    · -- The first byte is reached with newlines to spare.
      rename_i atTop
      exact ⟨⟨[], by rw [List.append_nil]; exact now⟩, fun lineStart found =>
        Option.some.inj found ▸ retainsFrom_top (by rw [← atTop, ← seen]; exact open_)⟩
    · rename_i notTop
      have fits : min pos options.prefillChunkBytes ≤ pos := Nat.min_le_left _ _
      generalize min pos options.prefillChunkBytes = chunkSize at fits
      simp only
      obtain ⟨more, later⟩ := Disk.acts_keepsFirst now (keeps (pos - chunkSize))
      generalize disk.acts (gaps.beforeChunk (pos - chunkSize)) = disk at later ⊢
      have stillStarts : text <+: content ++ more := starts.trans (List.prefix_append _ _)
      -- What has been appended meanwhile does not reach the chunk, which holds what the text holds
      -- there.
      have read : disk.readAtOffset (some 0) chunkSize (pos - chunkSize)
        (gaps.chunkFails (pos - chunkSize)) = [] ∨
          disk.readAtOffset (some 0) chunkSize (pos - chunkSize)
            (gaps.chunkFails (pos - chunkSize)) ++ text.drop pos =
            text.drop (pos - chunkSize) := by
        unfold Disk.readAtOffset
        split
        · exact .inl rfl
        · refine .inr ?_
          rw [drop_eq_chunk_append stillStarts inside fits]
          simp [later]
      generalize disk.readAtOffset (some 0) chunkSize (pos - chunkSize)
        (gaps.chunkFails (pos - chunkSize)) = chunk at read ⊢
      split
      · -- A chunk that cannot be read gives up.
        exact ⟨⟨more, later⟩, fun lineStart found => nomatch found⟩
      · rename_i some_
        have parts := read.resolve_left some_
        have counts := congrArg (List.count newline) parts
        have lengths := congrArg List.length parts
        -- The chunk and what is behind it are the text from here on, with its newlines.
        simp only [List.count_append, List.length_append, List.length_drop] at counts lengths
        have moved : 0 < chunk.length := List.length_pos_iff.mpr some_
        have spec := scanChunk_spec chunk.reverse (Nat.lt_succ_of_le open_)
        rw [List.count_reverse] at spec
        generalize scanChunk (max options.retentionLines 1 + 1) chunk.reverse newlinesSeen =
          scanned at spec ⊢
        obtain ⟨count, found⟩ := scanned
        rcases spec with ⟨rfl, rfl, fewer⟩ | ⟨behind, before, reversed, rfl, last⟩
        · -- Not enough newlines yet. A short chunk gives up, and a whole one goes on in front of
          -- it.
          simp only
          split
          · exact ⟨⟨more, later⟩, fun lineStart found => nomatch found⟩
          · have fuelLeft : pos - chunkSize ≤ fuel := by omega
            have stillInside : pos - chunkSize ≤ text.length := by omega
            have stillSeen : newlinesSeen + chunk.count newline =
                (text.drop (pos - chunkSize)).count newline := by omega
            obtain ⟨⟨evenMore, still⟩, found⟩ :=
              ih _ later stillStarts fuelLeft stillInside stillSeen (Nat.le_of_lt_succ fewer)
            exact ⟨⟨more ++ evenMore, by rw [← List.append_assoc]; exact still⟩, found⟩
        · -- The chunk is cut behind the newline that was sought.
          refine ⟨⟨more, later⟩, fun lineStart same => ?_⟩
          obtain rfl := Option.some.inj same
          have cut : chunk = before.reverse ++ [newline] ++ behind.reverse := by
            rw [← List.reverse_reverse chunk, reversed]
            simp
          have position : (before.reverse ++ [newline]).length = before.length + 1 := by simp
          -- From the cut on there are as many newlines as rows are kept.
          have behindIt : text.drop (pos - chunkSize + (before.length + 1)) = behind.reverse ++
              text.drop pos := by
            rw [← List.drop_drop, ← parts, cut, List.append_assoc, ← position, List.drop_left]
          have upToIt : text.take (pos - chunkSize + (before.length + 1)) =
              text.take (pos - chunkSize) ++ before.reverse ++ [newline] := by
            rw [List.take_add, ← parts, cut, List.append_assoc _ behind.reverse, ← position,
              List.take_left,
              List.append_assoc]
          have count : (text.drop (pos - chunkSize + (before.length + 1))).count newline =
              max options.retentionLines 1 := by
            rw [behindIt, List.count_append, List.count_reverse]
            omega
          refine ⟨?_, ?_, count.le, .inr count⟩
          · have total := congrArg List.length cut
            simp only [List.length_append, List.length_reverse, List.length_singleton] at total
            omega
          · -- The cut lies at the start of a line, since it follows a newline.
            rw [upToIt]
            exact splitLines_snoc_newline _

namespace Tailing

/-- What a producer that has taken a text from its first file must have made of it. -/
theorem tracks_of_taken {disk : Disk} {text more : Bytes}
    (now : disk.content 0 = some (text ++ more))
    {initial rest : Bytes} (parts : initial ++ rest = text)
    (atStart : (splitLines newline initial).2 = [])
    {partialLine : Bytes} {skips : Bool}
    (pending : partialLine = (splitLines newline rest).2 ∨ partialLine = [] ∧ skips = true) :
    Tracks initial ⟨disk, ⟨some 0, text.length, false, partialLine,
      joinLines newline (splitLines newline rest).1, 0, 0⟩, [],
      ((disk.content 0).getD []).take text.length,
        skips && midLine (((disk.content 0).getD []).take text.length)⟩ [] initial := by
  obtain ⟨epoch, generation, -⟩ := Disk.content_generation now
  have taken : ((disk.content 0).getD []).take text.length = text := by simp [now]
  have bound := Disk.lt_of_generation generation
  have open_ : (splitLines newline text).2 = (splitLines newline rest).2 := by
    rw [← parts, splitLines_append, atStart, List.nil_append]
  rw [taken]
  refine ⟨bound, Nat.zero_le _, rfl, atStart, ⟨rest, parts⟩,
    ⟨initial, [], rfl, .inl rfl, fun _ member => nomatch member⟩,
    ?_, fun _ member => (nomatch member), List.Pairwise.nil, fun file opened => ?_, ?_, fun whole =>
      ?_, fun none_ => nomatch none_⟩
  · simp [delivered, ← parts]
  · obtain rfl : 0 = file := Option.some.inj opened
    exact ⟨epoch, _, generation, List.prefix_append _ _, fun _ member => nomatch member⟩
  · rw [open_]
    exact pending.symm.imp_left And.left
  · rcases pending with same | ⟨none_, skipped⟩
    · exact same.trans open_.symm
    · -- Nothing is pending, and the text ends a line.
      have ended : (splitLines newline text).2 = [] := by simpa [skipped, midLine] using whole
      exact none_.trans ended.symm

/-- Tailing starts at the retained lines, unless the pre-fill gives up and it starts at the end. -/
theorem open_tracks (options : TailOptions) (content : Bytes) (gaps : PrefillGaps)
    (keepsChunks : ∀ offset, KeepsFirst (gaps.beforeChunk offset))
    (keepsBody : KeepsFirst gaps.beforeBody) :
    ∃ initial, Tracks initial (open_ options content gaps) [] initial ∧ ∀ text lineStart,
      ((Disk.ofContent content).acts gaps.beforeSize).content 0 = some text →
      (scanBackwards options gaps (some 0) text.length text.length 0 0
        ((Disk.ofContent content).acts gaps.beforeSize)).1 = some lineStart →
      gaps.bodyFails = false →
        initial = text.take lineStart ∧ RetainsFrom
          (max options.retentionLines 1) text lineStart := by
  have there := (Disk.ofContent content).acts_grows gaps.beforeSize
  unfold open_
  generalize skipping : TailingBytesProducer.prefillSkips options gaps (.ofContent content)
    (.start 0) = skips
  unfold TailingBytesProducer.prefillSkips at skipping
  unfold TailingBytesProducer.prefill
  simp only [TailingBytesProducer.start] at skipping ⊢
  generalize (Disk.ofContent content).acts gaps.beforeSize = disk at *
  obtain ⟨text, now⟩ : ∃ text, disk.content 0 = some text := Disk.content_of_lt there.length_le
  have size : disk.sizeOfOpenHandle (some 0) = some text.length := by
    simp [Disk.sizeOfOpenHandle, now]
  obtain ⟨⟨more, scanned⟩, found⟩ :=
    scanBackwards_spec options keepsChunks text.length 0 now List.prefix_rfl le_rfl
    le_rfl (by simp) (Nat.zero_le _)
  rw [size] at skipping ⊢
  have skipped (some_ : text.length ≠ 0)
    (fails : (scanBackwards options gaps (some 0) text.length text.length 0 0 disk).1 = none ∨
      gaps.bodyFails = true) : skips = true := by
    rw [← skipping]
    split
    · rename_i none_
      cases none_
    · rename_i zero
      exact absurd (Option.some.inj zero) some_
    · rename_i fileSize _ sized
      obtain rfl := Option.some.inj sized
      rcases fails with none_ | bodyFails
      · rw [none_]
        rfl
      · rw [bodyFails]
        cases (scanBackwards options gaps (some 0) text.length text.length 0 0 disk).1 <;> rfl
  clear skipping
  generalize scan : scanBackwards options gaps (some 0) text.length text.length 0 0 disk =
    result at scanned found skipped
  obtain ⟨start, disk'⟩ := result
  have retained {initial : Bytes} (same : ∀ lineStart, start = some lineStart →
    gaps.bodyFails = false →
      initial = text.take lineStart) (other : Bytes) (lineStart : Nat)
        (otherNow : disk.content 0 = some other)
      (otherScan : (scanBackwards options gaps (some 0) other.length other.length 0 0 disk).1 =
        some lineStart)
      (works : gaps.bodyFails = false) :
      initial = other.take lineStart ∧
        RetainsFrom (max options.retentionLines 1) other lineStart := by
    obtain rfl : text = other := Option.some.inj (now.symm.trans otherNow)
    rw [scan] at otherScan
    exact ⟨same lineStart otherScan works, found lineStart otherScan⟩
  have unfinished : splitLines newline (splitLines newline text).2 = ([],
      (splitLines newline text).2) :=
    splitLines_of_not_mem newline (not_mem_splitLines newline text).2
  -- Where no line is pre-filled, everything that is complete counts as skipped.
  have skipsAll {disk : Disk} {more : Bytes} (now : disk.content 0 = some (text ++ more))
      (noted : (splitLines newline text).2 = [] ∨ skips = true) :
      Tracks (joinLines newline (splitLines newline text).1)
        ⟨disk, ⟨some 0, text.length, false, [], [], 0, 0⟩, [],
          ((disk.content 0).getD []).take text.length,
          skips && midLine (((disk.content 0).getD []).take text.length)⟩ []
        (joinLines newline (splitLines newline text).1) := by
    have pending : ([] : Bytes) = (splitLines newline (splitLines newline text).2).2 ∨
        ([] : Bytes) = [] ∧ skips = true := by
      rw [unfinished]
      exact noted.imp Eq.symm fun skips => ⟨rfl, skips⟩
    have tracks := tracks_of_taken now (joinLines_splitLines newline text)
      (congrArg Prod.snd (splitLines_joinLines newline (not_mem_splitLines newline text).1)) pending
    rwa [unfinished] at tracks
  split
  · rename_i nothing
    cases nothing
  · rename_i empty
    obtain rfl : text = [] := List.length_eq_zero_iff.mp (Option.some.inj empty)
    refine ⟨[], ?_, retained fun lineStart _ _ => by simp⟩
    have tracks := skipsAll (List.append_nil ([] : Bytes) ▸ now) (.inl rfl)
    simpa [splitLines] using tracks
  · rename_i fileSize some_ sized
    obtain rfl : text.length = fileSize := Option.some.inj sized
    rw [scan]
    cases start with
    | none =>
      exact ⟨_, skipsAll scanned (.inr (skipped some_ (.inl rfl))), retained fun _ none_ =>
        absurd none_.symm (Option.some_ne_none _)⟩
    | some lineStart =>
      have retains := found lineStart rfl
      simp only
      split
      · obtain ⟨evenMore, later⟩ := Disk.acts_keepsFirst scanned keepsBody
        simp only at later
        rw [List.append_assoc] at later
        generalize disk'.acts gaps.beforeBody = final at later ⊢
        by_cases works : gaps.bodyFails = false
        · refine ⟨text.take lineStart, ?_, retained fun other same _ =>
            by rw [Option.some.inj same]⟩
          have body : final.readAtOffset (some 0) (text.length - lineStart) lineStart false =
              text.drop lineStart := by
            have inside := retains.inside
            rw [Disk.readAtOffset, if_neg Bool.false_ne_true, Option.bind_some, later,
              Option.getD_some,
              List.drop_append_of_le_length inside, ← List.length_drop, List.take_left]
          rw [works, body]
          exact tracks_of_taken later (List.take_append_drop lineStart text) retains.atStart
            (.inl rfl)
        · refine ⟨joinLines newline (splitLines newline text).1, ?_, retained fun _ _ reads =>
            absurd reads works⟩
          have fails := Bool.eq_true_of_not_eq_false works
          rw [fails]
          exact skipsAll later (.inr (skipped some_ (.inr fails)))
      · rename_i atEnd
        have ended : lineStart = text.length := le_antisymm retains.inside (Nat.le_of_not_lt atEnd)
        refine ⟨text.take lineStart, ?_, retained fun other same _ => by rw [Option.some.inj same]⟩
        have tracks := @tracks_of_taken disk' text more scanned _ _
          (List.take_append_drop lineStart text) retains.atStart _
          skips (.inl rfl)
        rw [ended, List.drop_length] at tracks
        rw [ended]
        exact tracks

/-- Moves never fail. -/
theorem foldlM_step (options : TailOptions) (moves : List TailMove) (state : Tailing) :
    moves.foldlM (step options) state = some (moves.foldl (move options) state) := by
  induction moves generalizing state with
  | nil => rfl
  | cons next moves ih => exact ih (state.move options next)

/-- Moves that read on where the last read stopped keep what holds between moves, and what is
delivered. -/
theorem moves_tracks {options : TailOptions} {initial : Bytes} {moves : List TailMove}
    {state : Tailing}
    {closed : List Stretch} {skipped : Bytes} (tracks : Tracks initial state closed skipped)
    (clean : CleanRun (step options) (ReadsOn options) state moves) :
    (∃ closed skipped, Tracks initial (moves.foldl (move options) state) closed skipped) ∧
      state.delivered <+: (moves.foldl (move options) state).delivered := by
  induction moves generalizing state closed skipped with
  | nil => exact ⟨⟨closed, skipped, tracks⟩, List.prefix_rfl⟩
  | cons next moves ih =>
    obtain ⟨closed', skipped', moved⟩ := tracks.move clean.1
    obtain ⟨ends, later⟩ := ih moved (clean.2 _ rfl)
    exact ⟨ends, (delivered_move options next tracks.consumed).trans later⟩

/-- Tailing delivers whole lines only. In every run in which each read goes on where the last one
stopped, and the pre-fill sees its file uncut, what the consumer gets is at all times made of
complete lines of generations, in order and without repetition; everything that was read is in it,
and nothing that was in it goes away. -/
theorem tailing_deliversWholeLines (options : TailOptions) (content : Bytes) (gaps : PrefillGaps)
    (keepsChunks : ∀ offset, KeepsFirst (gaps.beforeChunk offset))
    (keepsBody : KeepsFirst gaps.beforeBody)
    (moves : List TailMove) (clean : CleanRun (step options) (ReadsOn options)
    (open_ options content gaps) moves) :
    ∃ initial : Bytes,
      (∀ text lineStart, ((Disk.ofContent content).acts gaps.beforeSize).content 0 = some text →
        (scanBackwards options gaps (some 0) text.length text.length 0 0
          ((Disk.ofContent content).acts gaps.beforeSize)).1 = some lineStart →
            gaps.bodyFails = false →
        initial = text.take lineStart ∧ RetainsFrom (max options.retentionLines 1) text lineStart) ∧
      ∀ before after, moves = before ++ after →
        DeliversWholeLines initial (before.foldl (move options) (open_ options content gaps)) ∧
          (before.foldl (move options) (open_ options content gaps)).delivered <+:
            (moves.foldl (move options) (open_ options content gaps)).delivered := by
  obtain ⟨initial, opened, retained⟩ := open_tracks options content gaps keepsChunks keepsBody
  refine ⟨initial, retained, ?_⟩
  rintro before after rfl
  obtain ⟨first, second⟩ := clean.append
  -- The moves before keep the invariant, and the moves after keep it from there.
  obtain ⟨⟨closed, skipped, tracks⟩, -⟩ := moves_tracks opened first
  have middle := foldlM_step options before (open_ options content gaps)
  obtain ⟨-, later⟩ := moves_tracks tracks (second _ middle)
  rw [List.foldl_append]
  exact ⟨tracks.deliversWholeLines, later⟩

/-- Small buffers, so that a short run uses all of them. -/
def smallOptions : TailOptions := ⟨1, 3, 2, 0⟩

/-- A pre-fill during which nothing happens. -/
def calmPrefill : PrefillGaps := ⟨[], fun _ => [], fun _ => false, [], false⟩

/-- A poll with something written before its check, and something before its read. -/
def pollAfter (beforePathCheck beforeSize : List DiskAction) : TailMove :=
  .poll ⟨beforePathCheck, [], false, [], beforeSize, [], false⟩

/-- Two lines in three reads, and a rotation when nothing is left to read. -/
def calmMoves : List TailMove :=
  [pollAfter [] [.append 0 (bytes "a\nb")], .read 2, pollAfter [.append 0 (bytes "\n")] [],
    pollAfter [.vanish, .recreate] [.append 1 (bytes "c\n")]]

/-- Quiet moves: every line after the prefill is delivered. -/
theorem calmMoves_deliverWholeLines : ∃ initial,
    DeliversWholeLines initial
      (calmMoves.foldl (move smallOptions) (open_ smallOptions (bytes "w\nx\n") calmPrefill)) ∧
      (calmMoves.foldl (move smallOptions)
        (open_ smallOptions (bytes "w\nx\n") calmPrefill)).delivered =
        bytes "x\na\nb\nc\n" := by
  have keeps : KeepsFirst [] := fun _ member => nomatch member
  have clean : CleanRun (step smallOptions) (ReadsOn smallOptions)
    (open_ smallOptions (bytes "w\nx\n") calmPrefill)
      calmMoves := by
    -- Both polls that are due read to the end of the file.
    refine ⟨.inr ⟨by decide, by decide⟩, fun _ first => ?_⟩
    cases first
    refine ⟨trivial, fun _ second => ?_⟩
    cases second
    refine ⟨.inr ⟨by decide, by decide⟩, fun _ third => ?_⟩
    cases third
    exact ⟨.inr ⟨by decide, by decide⟩, fun _ _ => trivial⟩
  obtain ⟨initial, -, always⟩ :=
    tailing_deliversWholeLines smallOptions (bytes "w\nx\n") calmPrefill (fun _ =>
      keeps) keeps calmMoves clean
  exact ⟨initial, (always calmMoves [] (List.append_nil _).symm).1, by decide⟩

/-- Every complete line of a file is delivered once the worker has moved on to a newer one. -/
def DeliversReplacedLines (state : Tailing) : Prop :=
  ∀ file epoch content, (∃ newer, state.producer.handle = some newer ∧ file < newer) →
    state.disk.generation file epoch = some content →
    ∀ line ∈ (splitLines newline content).1, line ∈ (splitLines newline state.delivered).1

/-- A line is written after the last read, and then the file is renamed and replaced. -/
def hastyMoves : List TailMove :=
  [pollAfter [] [.append 0 (bytes "a\n")],
    pollAfter [.append 0 (bytes "b\n"), .vanish, .recreate] []]

/-- Hasty moves: a line that was complete is lost. -/
theorem hastyMoves_lose_line :
    (hastyMoves.foldl (move smallOptions) (open_ smallOptions [] calmPrefill)).stop.delivered =
      bytes "a\n" ∧
      ¬DeliversReplacedLines (hastyMoves.foldl (move smallOptions)
        (open_ smallOptions [] calmPrefill)) := by
  refine ⟨by decide, fun delivers => ?_⟩
  have lost := delivers 0 0 (bytes "a\nb\n") ⟨1, by decide, by decide⟩ (by decide) (bytes "b")
    (by decide)
  exact absurd lost (by decide)

end Tailing

end Loglib
