import Loglib.Pipeline.LineBytesQueue

/-! Standard input behind the byte queue: raw chunks go in, cut wherever a read of the
worker ends. -/

namespace Loglib

/-- A stdin producer in use, with what its worker has read and what its consumer has got. -/
structure StdinTransfer where
  /-- `queueCapBytes`. -/
  cap : Nat
  queue : LineBytesQueue
  /-- `mDropped`. -/
  dropped : Nat
  /-- All bytes that `WorkerMain` has read. -/
  input : Bytes
  delivered : Bytes

/-- What the worker and the consumer do. -/
inductive StdinMove where
  /-- `ReadNative` gives a chunk, and the worker appends it. -/
  | append (chunk : Bytes)
  | read (bufferSize : Nat)

namespace StdinTransfer

/-- The producer before its first chunk. -/
def start (cap : Nat) : StdinTransfer := ⟨cap, .empty, 0, [], []⟩

/-- One move of either side, each under the lock. -/
def move (transfer : StdinTransfer) : StdinMove → StdinTransfer
  | .append chunk =>
    let (queue, dropped) := transfer.queue.append chunk transfer.cap
    { transfer with queue, dropped := transfer.dropped + dropped, input := transfer.input ++ chunk }
  | .read bufferSize =>
    let (copied, queue) := transfer.queue.read bufferSize
    { transfer with queue, delivered := transfer.delivered ++ copied }

/-- A move never fails. -/
def step (transfer : StdinTransfer) (next : StdinMove) : Option StdinTransfer :=
  some (transfer.move next)

/-- A chunk that does not fit finds an empty queue, or the consumer at the start of a line and the
queue with the end of a line at or behind the last byte that has to go. -/
def DropsWholeLines (transfer : StdinTransfer) : StdinMove → Prop
  | .append chunk =>
    0 < transfer.cap → transfer.cap < transfer.queue.size + chunk.length →
      transfer.queue.bytes ≠ [] →
      (splitLines newline transfer.delivered).2 = [] ∧
        ((splitLines newline transfer.queue.bytes).2 = [] ∨
          newline ∈ transfer.queue.bytes.drop (transfer.queue.size + chunk.length - transfer.cap))
  | .read _ => True

/-- What is delivered and queued has the lines of the input that were not dropped, and the
same open line. -/
structure KeepsLines (transfer : StdinTransfer) : Prop where
  lines : (splitLines newline (transfer.delivered ++ transfer.queue.bytes)).1.Sublist
    (splitLines newline transfer.input).1
  openLine : (splitLines newline (transfer.delivered ++ transfer.queue.bytes)).2 =
    (splitLines newline transfer.input).2

/-- The bytes delivered, queued and dropped add up to the bytes read. -/
def Accounted (transfer : StdinTransfer) : Prop :=
  transfer.delivered.length + transfer.queue.size + transfer.dropped = transfer.input.length

/-- Each delivered line is a line of the input, in order and once, and every byte is
accounted for. -/
structure WholeLines (transfer : StdinTransfer) : Prop where
  delivered_sublist :
    (splitLines newline transfer.delivered).1.Sublist (splitLines newline transfer.input).1
  accounted : transfer.Accounted

/-- A move keeps the account of the bytes, whether or not it tears a line. -/
theorem move_accounted {transfer : StdinTransfer} (next : StdinMove)
    (accounted : transfer.Accounted) :
    (transfer.move next).Accounted := by
  unfold Accounted at accounted ⊢
  cases next with
  | append chunk =>
    -- What overflows is at most what is there.
    have within := transfer.queue.overflow_le chunk.length transfer.cap
    simp only [move, LineBytesQueue.append, LineBytesQueue.size, List.length_append,
      List.length_drop] at accounted ⊢
    omega
  | read bufferSize =>
    simp only [move, LineBytesQueue.read, LineBytesQueue.size, List.length_append, List.length_take,
      List.length_drop] at accounted ⊢
    omega

/-- Bytes that end at a line start contribute their lines, whatever follows. -/
theorem splitLines_of_closed {first : Bytes} (closed : (splitLines newline first).2 = [])
    (second : Bytes) :
    splitLines newline (first ++ second) =
      ((splitLines newline first).1 ++ (splitLines newline second).1,
        (splitLines newline second).2) := by
  rw [splitLines_append, closed, List.nil_append]

/-- What the drop takes ends with the first newline from there on, or with the queue. -/
theorem take_roundUp (queued : Bytes) (dropFrom : Nat) :
    queued.take (LineBytesQueue.roundUp queued dropFrom) =
      queued.take dropFrom ++ throughSeparator newline (queued.drop dropFrom) := by
  have whole := List.take_append_drop (LineBytesQueue.roundUp queued dropFrom) queued
  have parts := List.take_append_drop dropFrom queued
  rw [← throughSeparator_append_afterSeparator newline (queued.drop dropFrom)] at parts
  rw [LineBytesQueue.drop_roundUp] at whole
  -- Both cuts leave the same bytes behind them.
  apply (List.append_left_inj (afterSeparator newline (queued.drop dropFrom))).mp
  rw [whole, List.append_assoc, parts]

/-- Where the queue has the end of a line at or behind the drop, the drop takes whole lines. -/
theorem take_roundUp_closed {queued : Bytes} {dropFrom : Nat}
    (ends : (splitLines newline queued).2 = [] ∨ newline ∈ queued.drop dropFrom) :
    (splitLines newline (queued.take (LineBytesQueue.roundUp queued dropFrom))).2 = [] := by
  have concat (found : ∃ line, newline ∉ line ∧
      throughSeparator newline (queued.drop dropFrom) = line ++ [newline]) :
      (splitLines newline (queued.take (LineBytesQueue.roundUp queued dropFrom))).2 = [] := by
    obtain ⟨line, -, through⟩ := found
    rw [take_roundUp, through, ← List.append_assoc, splitLines_concat]
  obtain closed | member := ends
  · obtain found | nothing := throughSeparator_cases newline (queued.drop dropFrom)
    · exact concat found
    · -- The drop takes everything, and the queue ends with a line.
      have whole := List.take_append_drop (LineBytesQueue.roundUp queued dropFrom) queued
      rw [LineBytesQueue.drop_roundUp, nothing, List.append_nil] at whole
      rw [whole]
      exact closed
  · exact concat (throughSeparator_of_mem newline member)

/-- An append that drops nothing, or whole lines in front of a consumer that has whole
lines, tears none. -/
theorem append_overflow_closed {transfer : StdinTransfer} {chunk : Bytes}
    (clean : transfer.DropsWholeLines (.append chunk)) :
    transfer.queue.overflow chunk.length transfer.cap = 0 ∨
      ((splitLines newline transfer.delivered).2 = [] ∧
        (splitLines newline
          (transfer.queue.bytes.take (transfer.queue.overflow chunk.length transfer.cap))).2 =
            []) := by
  by_cases drops : chunk.length ≠ 0 ∧ 0 < transfer.cap ∧
    transfer.cap < transfer.queue.size + chunk.length
  · obtain ⟨something, capped, full⟩ := drops
    have count : transfer.queue.overflow chunk.length transfer.cap =
        LineBytesQueue.roundUp transfer.queue.bytes
          (min (transfer.queue.size + chunk.length - transfer.cap) transfer.queue.size) := by
      rw [LineBytesQueue.overflow, if_neg something, if_pos ⟨capped, full⟩]
    by_cases empty : transfer.queue.bytes = []
    · refine .inl (Nat.le_zero.mp ?_)
      have within := transfer.queue.overflow_le chunk.length transfer.cap
      simpa [empty] using within
    · obtain ⟨atStart, ends⟩ := clean capped full empty
      refine .inr ⟨atStart, ?_⟩
      rw [count]
      apply take_roundUp_closed
      obtain closed | member := ends
      · exact .inl closed
      · -- There is a byte behind the overflow, so the overflow is smaller than the queue.
        have inside := List.length_pos_of_mem member
        rw [List.length_drop] at inside
        have least : min (transfer.queue.size + chunk.length - transfer.cap) transfer.queue.size =
            transfer.queue.size + chunk.length - transfer.cap := by
          simp only [LineBytesQueue.size] at inside ⊢
          omega
        rw [least]
        exact .inr member
  · left
    unfold LineBytesQueue.overflow
    split
    · rfl
    · rename_i something
      rw [if_neg]
      exact fun full => drops ⟨something, full⟩

/-- A move that drops only whole lines keeps the lines. -/
theorem move_keepsLines {transfer : StdinTransfer} {next : StdinMove} (keeps : transfer.KeepsLines)
    (clean : transfer.DropsWholeLines next) : (transfer.move next).KeepsLines := by
  cases next with
  | read bufferSize =>
    have same : (transfer.move (.read bufferSize)).delivered ++
      (transfer.move (.read bufferSize)).queue.bytes =
        transfer.delivered ++ transfer.queue.bytes := by
      simp [move, LineBytesQueue.read, List.append_assoc]
    exact ⟨by rw [same]; exact keeps.lines, by rw [same]; exact keeps.openLine⟩
  | append chunk =>
    -- First the drop, which keeps the lines, then the chunk, which continues the open line.
    let kept := transfer.queue.bytes.drop (transfer.queue.overflow chunk.length transfer.cap)
    have dropped : (splitLines newline (transfer.delivered ++ kept)).1.Sublist
          (splitLines newline transfer.input).1 ∧
        (splitLines newline (transfer.delivered ++ kept)).2 =
          (splitLines newline transfer.input).2 := by
      obtain nothing | ⟨atStart, closed⟩ := append_overflow_closed clean
      · simp only [kept, nothing, List.drop_zero]
        exact ⟨keeps.lines, keeps.openLine⟩
      · have parts := List.take_append_drop (transfer.queue.overflow chunk.length transfer.cap)
          transfer.queue.bytes
        obtain ⟨lines, openLine⟩ := keeps
        rw [← parts, splitLines_of_closed atStart, splitLines_of_closed closed] at lines openLine
        rw [splitLines_of_closed atStart]
        -- The lines of the part that goes are left out.
        refine ⟨List.Sublist.trans ?_ lines, openLine⟩
        exact (List.Sublist.refl _).append (List.sublist_append_right _ _)
    have bytes_ : (transfer.move (.append chunk)).delivered ++
      (transfer.move (.append chunk)).queue.bytes =
        (transfer.delivered ++ kept) ++ chunk := by
      simp [move, LineBytesQueue.append, kept]
    have input : (transfer.move (.append chunk)).input = transfer.input ++ chunk := rfl
    constructor
    · rw [bytes_, input, splitLines_append, splitLines_append newline transfer.input, dropped.2]
      exact dropped.1.append (List.Sublist.refl _)
    · rw [bytes_, input, splitLines_append, splitLines_append newline transfer.input, dropped.2]

/-- In every run whose drops take whole lines in front of a consumer that has whole lines, each line
delivered is a line of the input, in order and once, and every byte is accounted for. -/
theorem run_removesWholeLines {cap : Nat} {moves : List StdinMove} {final : StdinTransfer}
    (clean : CleanRun step DropsWholeLines (start cap) moves)
    (done : moves.foldlM step (start cap) = some final) : final.WholeLines := by
  -- The invariant is carried by each move that meets its condition.
  have kept : final.KeepsLines ∧ final.Accounted := by
    refine clean.invariant (fun transfer => transfer.KeepsLines ∧
      transfer.Accounted) ?_ ⟨⟨.refl _, rfl⟩, rfl⟩ done
    rintro transfer next after ⟨keeps, accounted⟩ wholeDrop moved
    obtain rfl : transfer.move next = after := by simpa [step] using moved
    exact ⟨move_keepsLines keeps wholeDrop, move_accounted next accounted⟩
  have first := splitLines_prefix newline final.delivered final.queue.bytes
  exact ⟨first.sublist.trans kept.1.lines, kept.2⟩

/-- Two chunks that cut a line, and a drop of the line in front of it. -/
def tidyMoves : List StdinMove :=
  [.append (bytes "ab\nc"), .append (bytes "d\ne"), .read 8, .append (bytes "f\n"), .read 8]

/-- Only whole lines are missing from what is delivered. -/
theorem tidyMoves_wholeLines :
    ∃ final, tidyMoves.foldlM step (start 5) = some final ∧ final.dropped = 3 ∧
    final.delivered = bytes "cd\nef\n" ∧ final.input = bytes "ab\ncd\nef\n" ∧ final.WholeLines := by
  suffices clean : CleanRun step DropsWholeLines (start 5) tidyMoves from
    ⟨_, rfl, by decide, by decide, by decide, run_removesWholeLines clean rfl⟩
  -- Move by move: the drop takes whole lines.
  refine ⟨fun _ full => absurd full (by decide), fun _ first => ?_⟩
  cases first
  refine ⟨fun _ _ _ => by decide, fun _ second => ?_⟩
  cases second
  refine ⟨trivial, fun _ third => ?_⟩
  cases third
  exact ⟨fun _ full => absurd full (by decide), fun _ _ => ⟨trivial, fun _ _ => trivial⟩⟩

/-- A drop of the queued head of a line whose tail comes in the next chunk. -/
def cutMoves : List StdinMove := [.append (bytes "ab"), .append (bytes "cd\n"), .read 8]

/-- The consumer gets the line `cd`, while the input has the one line `abcd`. -/
theorem cutMoves_tear_line : ∃ final, cutMoves.foldlM step (start 4) = some final ∧
    (splitLines newline final.delivered).1 = [bytes "cd"] ∧
    (splitLines newline final.input).1 = [bytes "abcd"] ∧ ¬final.WholeLines := by
  suffices torn : ∀ final, cutMoves.foldlM step (start 4) = some final →
      (splitLines newline final.delivered).1 = [bytes "cd"] ∧
      (splitLines newline final.input).1 = [bytes "abcd"] ∧
      ¬(splitLines newline final.delivered).1.Sublist (splitLines newline final.input).1 by
    obtain ⟨delivered, input, differs⟩ := torn _ rfl
    exact ⟨_, rfl, delivered, input, fun whole => differs whole.delivered_sublist⟩
  -- The run is evaluated.
  intro final done
  cases done
  exact ⟨by decide, by decide, by decide⟩

end StdinTransfer

end Loglib
