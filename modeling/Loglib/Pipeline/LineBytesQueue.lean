import Loglib.Basic.Bytes
import Loglib.Basic.Runs
import Loglib.Basic.SeparatedLines

/-! The byte queue between a network worker and the parser, which drops whole lines when
it is full. -/

namespace Loglib

/-- A line of text, without the newline behind it. -/
structure TextLine where
  text : Bytes
  whole : newline ∉ text

/-- Lines as they are sent: each of them with its newline. -/
def TextLine.payload (lines : List TextLine) : Bytes := joinLines newline (lines.map (·.text))

namespace TextLine

/-- Nothing is sent for no line. -/
@[simp] theorem payload_nil : payload [] = [] := rfl

/-- What is sent in two parts is sent one part after the other. -/
theorem payload_append (first second : List TextLine) :
    payload (first ++ second) = payload first ++ payload second := by
  simp [payload]

/-- The texts have no newline. -/
theorem not_mem_texts (lines : List TextLine) : ∀ text ∈ lines.map (·.text), newline ∉ text := by
  intro text member
  obtain ⟨line, -, rfl⟩ := List.mem_map.mp member
  exact line.whole

/-- What is sent splits into the lines. -/
theorem splitLines_payload (lines : List TextLine) :
    splitLines newline (payload lines) = (lines.map (·.text), []) :=
  splitLines_joinLines newline (not_mem_texts lines)

/-- A line is sent with at least one byte. -/
theorem payload_length_ne_zero {lines : List TextLine} (some_ : lines ≠ []) :
    (payload lines).length ≠ 0 := by
  obtain ⟨line, others, rfl⟩ := List.exists_cons_of_ne_nil some_
  simp [payload]

/-- What is sent, cut at a line start, is some lines and then the others. -/
theorem payload_eq_append {lines : List TextLine} {first second : Bytes}
    (same : first ++ second = payload lines) (atStart : (splitLines newline first).2 = []) :
    ∃ front back, lines = front ++ back ∧ first = payload front ∧ second = payload back := by
  have split := splitLines_append newline first second
  rw [same, splitLines_payload, atStart, List.nil_append, Prod.mk.injEq] at split
  obtain ⟨texts, ended⟩ := split
  -- The lines of the whole are those of the parts, one after the other.
  obtain ⟨front, back, rfl, frontTexts, backTexts⟩ := List.map_eq_append_iff.mp texts
  have firstPieces := joinLines_splitLines newline first
  have secondPieces := joinLines_splitLines newline second
  rw [atStart, List.append_nil, ← frontTexts] at firstPieces
  rw [← ended, List.append_nil, ← backTexts] at secondPieces
  exact ⟨front, back, rfl, firstPieces.symm, secondPieces.symm⟩

end TextLine

/-- `LineBytesQueue`. -/
structure LineBytesQueue where
  bytes : Bytes
deriving DecidableEq, Repr

namespace LineBytesQueue

/-- The queue that holds nothing. -/
def empty : LineBytesQueue := ⟨[]⟩

/-- `Size`. -/
def size (queue : LineBytesQueue) : Nat := queue.bytes.length

/-- `Read`: copy up to the buffer's size and pop as much off the front. -/
def read (queue : LineBytesQueue) (bufferSize : Nat) : Bytes × LineBytesQueue :=
  let toCopy := min bufferSize queue.size
  (queue.bytes.take toCopy, ⟨queue.bytes.drop toCopy⟩)

/-- How far the drop goes: past the next newline, or to the end where there is none. -/
def roundUp (queued : Bytes) (dropFrom : Nat) : Nat :=
  let dropCount := dropFrom + ((queued.drop dropFrom).takeWhile (· ≠ newline)).length
  if queued[dropCount]? = some newline then dropCount + 1 else dropCount

/-- How many bytes an append drops first. A cap of zero is none. -/
def overflow (queue : LineBytesQueue) (size cap : Nat) : Nat :=
  if size = 0 then 0
  else if 0 < cap ∧ cap < queue.size + size then
    roundUp queue.bytes (min (queue.size + size - cap) queue.size)
  else 0

/-- `Append`, with the number of bytes it adds to the dropped counter. -/
def append (queue : LineBytesQueue) (data : Bytes) (cap : Nat) : LineBytesQueue × Nat :=
  let dropCount := queue.overflow data.length cap
  (⟨queue.bytes.drop dropCount ++ data⟩, dropCount)

/-- The drop never goes past the end. -/
theorem roundUp_le {queued : Bytes} {dropFrom : Nat} (inside : dropFrom ≤ queued.length) :
    roundUp queued dropFrom ≤ queued.length := by
  -- The walk to the end of the line stays within what is queued.
  have walked : ((queued.drop dropFrom).takeWhile (· ≠ newline)).length ≤ queued.length -
      dropFrom := by
    have bound := (List.takeWhile_sublist (fun byte => decide (byte ≠ newline))
      (l := queued.drop dropFrom)).length_le
    rwa [List.length_drop] at bound
  unfold roundUp
  simp only
  split
  · rename_i found
    have bound := (List.getElem?_eq_some_iff.mp found).1
    omega
  · omega

/-- The drop goes at least as far as it has to. -/
theorem le_roundUp (queued : Bytes) (dropFrom : Nat) : dropFrom ≤ roundUp queued dropFrom := by
  unfold roundUp
  simp only
  split <;> omega

/-- What is left after the drop is what follows the first newline from there on. -/
theorem drop_roundUp (queued : Bytes) (dropFrom : Nat) :
    queued.drop (roundUp queued dropFrom) = afterSeparator newline (queued.drop dropFrom) := by
  -- The walk and the rest make up the bytes from the start of the drop on.
  have walked := List.takeWhile_append_dropWhile (p := fun byte => decide (byte ≠ newline))
    (l := queued.drop dropFrom)
  have stops := List.head?_dropWhile_not (fun byte => decide (byte ≠ newline))
    (queued.drop dropFrom)
  unfold roundUp afterSeparator
  simp only
  generalize (queued.drop dropFrom).takeWhile (fun byte => decide (byte ≠ newline)) = walk at *
  generalize (queued.drop dropFrom).dropWhile (fun byte => decide (byte ≠ newline)) = rest at *
  have left : queued.drop (dropFrom + walk.length) = rest := by
    rw [← List.drop_drop, ← walked, List.drop_left]
  have next : queued[dropFrom + walk.length]? = rest.head? := by
    rw [← left, List.head?_drop]
  cases rest with
  | nil => simp [next, left]
  | cons byte rest =>
    have same : byte = newline := by simpa using stops
    rw [if_pos (by simp [next, same]), ← List.drop_drop, left]

/-- Nothing that is not queued is dropped. -/
theorem overflow_le (queue : LineBytesQueue) (size cap : Nat) :
    queue.overflow size cap ≤ queue.bytes.length := by
  unfold overflow
  split
  · exact Nat.zero_le _
  · split
    · exact roundUp_le (Nat.min_le_right ..)
    · exact Nat.zero_le _

/-- After an append with a cap the queue is no larger than the cap or what was appended. -/
theorem append_size_le (queue : LineBytesQueue) {data : Bytes} {cap : Nat} (some_ : 0 < data.length)
    (capped : 0 < cap) : (queue.append data cap).1.size ≤ max cap data.length := by
  simp only [append, size, List.length_append, List.length_drop]
  unfold overflow
  rw [if_neg (by omega)]
  -- The front goes up to a line end at least as far as the overflow.
  split
  · have far := le_roundUp queue.bytes (min (queue.size + data.length - cap) queue.size)
    simp only [size] at far ⊢
    omega
  · rename_i fits
    simp only [size] at fits
    omega

/-- A drop in a queue of whole lines takes whole lines off the front. -/
theorem drop_roundUp_payload (lines : List TextLine) (dropFrom : Nat) :
    ∃ rest, rest <:+ lines ∧
      (TextLine.payload lines).drop
        (roundUp (TextLine.payload lines) dropFrom) = TextLine.payload rest := by
  obtain ⟨rest, suffix_, left⟩ := afterSeparator_drop_joinLines newline
    (TextLine.not_mem_texts lines) dropFrom
  obtain ⟨dropped, cut⟩ := suffix_
  -- The texts that are left are those of a suffix of the lines.
  obtain ⟨front, back, rfl, -, rfl⟩ := List.map_eq_append_iff.mp cut.symm
  exact ⟨back, List.suffix_append front back, by rw [drop_roundUp]; exact left⟩

end LineBytesQueue

/-- What the worker and the parser do with the queue. -/
inductive QueueMove where
  | append (lines : List TextLine) (cap : Nat)
  | read (bufferSize : Nat)

/-- A queue in use, with what has gone in and what has come out. -/
structure Transfer where
  queue : LineBytesQueue
  /-- The counter that the drops are added to. -/
  droppedCounter : Nat
  appended : List TextLine
  received : Bytes
  /-- The larger of the cap and the size at the last append that carried bytes, where it
  had a cap. -/
  bound : Option Nat

namespace Transfer

/-- The transfer before the first move. -/
def start : Transfer := ⟨.empty, 0, [], [], some 0⟩

/-- One move of either side. -/
def move (transfer : Transfer) : QueueMove → Transfer
  | .append lines cap =>
    let data := TextLine.payload lines
    let (queue, dropped) := transfer.queue.append data cap
    { transfer with
      queue
      droppedCounter := transfer.droppedCounter + dropped
      appended := transfer.appended ++ lines
      -- After an append the queue holds no more than its cap, or than the data if that is longer.
      bound := if data = [] then transfer.bound
        else if cap = 0 then none else some (max cap data.length) }
  | .read bufferSize =>
    let (copied, queue) := transfer.queue.read bufferSize
    { transfer with queue, received := transfer.received ++ copied }

/-- A move never fails. -/
def step (transfer : Transfer) (next : QueueMove) : Option Transfer := some (transfer.move next)

/-- The bytes received and those still queued are whole lines among those appended, in order. -/
def KeepsLines (transfer : Transfer) : Prop :=
  ∃ kept : List TextLine, kept.Sublist transfer.appended ∧
    transfer.received ++ transfer.queue.bytes = TextLine.payload kept

/-- Every appended byte has been read or dropped or is still queued, and none of them twice. -/
def Accounted (transfer : Transfer) : Prop :=
  -- The flag says whether the byte was read.
  ∃ settled : List (Byte × Bool),
    TextLine.payload transfer.appended = settled.map (·.1) ++ transfer.queue.bytes ∧
      transfer.received = (settled.filter (·.2)).map (·.1) ∧
      transfer.droppedCounter = (settled.filter fun fate => !fate.2).length

/-- The queue is within its bound. -/
def Bounded (transfer : Transfer) : Prop := ∀ bound ∈ transfer.bound, transfer.queue.size ≤ bound

/-- No line is torn, no byte is lost, and the queue stays small. -/
structure WholeLines (transfer : Transfer) : Prop where
  received_sublist : (splitLines newline transfer.received).1.Sublist
    (transfer.appended.map (·.text))
  keepsLines : transfer.KeepsLines
  accounted : transfer.Accounted
  bounded : transfer.Bounded

/-- An append that has to drop bytes finds the reader at the start of a line. -/
def DropsBetweenLines (transfer : Transfer) : QueueMove → Prop
  | .append lines cap =>
    lines ≠ [] → 0 < cap → cap < transfer.queue.size + (TextLine.payload lines).length →
      (splitLines newline transfer.received).2 = []
  | .read _ => True

/-- A move keeps the account of the bytes. -/
theorem move_accounted {transfer : Transfer} (next : QueueMove) (accounted : transfer.Accounted) :
    (transfer.move next).Accounted := by
  obtain ⟨settled, sent, received, dropped⟩ := accounted
  -- The bytes that leave the queue are settled with one and the same flag.
  have leave (count : Nat) (flag : Bool) :
    (settled ++ (transfer.queue.bytes.take count).map (·, flag)).map
      (·.1) ++ transfer.queue.bytes.drop count = TextLine.payload transfer.appended := by
    simp [sent, List.map_append, List.append_assoc, Function.comp_def]
  cases next with
  | append lines cap =>
    let count := transfer.queue.overflow (TextLine.payload lines).length cap
    have within : count ≤ transfer.queue.bytes.length := transfer.queue.overflow_le _ cap
    refine ⟨settled ++ (transfer.queue.bytes.take count).map (·, false), ?_, ?_, ?_⟩
    · have all := leave count false
      simp only [move, LineBytesQueue.append, TextLine.payload_append, ← List.append_assoc]
      rw [all]
    · generalize transfer.queue.bytes.take count = leaving
      simp [move, received, List.filter_map, Function.comp_def]
    · have gone : (transfer.queue.bytes.take count).length = count := List.length_take_of_le within
      generalize transfer.queue.bytes.take count = leaving at gone
      simp [move, LineBytesQueue.append, dropped, List.filter_map, Function.comp_def, gone, count]
  | read bufferSize =>
    let count := min bufferSize transfer.queue.size
    refine ⟨settled ++ (transfer.queue.bytes.take count).map (·, true),
      (leave count true).symm, ?_, ?_⟩
    · simp only [move, LineBytesQueue.read, received]
      generalize transfer.queue.bytes.take (min bufferSize transfer.queue.size) = leaving
      simp [List.filter_map, Function.comp_def]
    · generalize transfer.queue.bytes.take count = leaving
      simp [move, dropped, List.filter_map, Function.comp_def]

/-- A move keeps the queue within its bound. -/
theorem move_bounded {transfer : Transfer} (next : QueueMove) (bounded : transfer.Bounded) :
    (transfer.move next).Bounded := by
  intro bound holds
  cases next with
  -- An append drops from the front until the cap holds, and a read only takes away.
  | append lines cap =>
    simp only [move] at holds ⊢
    split at holds
    · rename_i nothing
      have shrinks := bounded bound holds
      simpa [LineBytesQueue.append, nothing, LineBytesQueue.overflow, LineBytesQueue.size]
        using shrinks
    · rename_i something
      split at holds
      · cases holds
      · rename_i capped
        obtain rfl : max cap (TextLine.payload lines).length = bound := by simpa using holds
        exact transfer.queue.append_size_le (List.length_pos_of_ne_nil something)
          (Nat.pos_of_ne_zero capped)
  | read bufferSize =>
    have shrinks := bounded bound holds
    simp only [move, LineBytesQueue.read, LineBytesQueue.size, List.length_drop] at shrinks ⊢
    omega

/-- A move that drops no part of a line keeps the lines whole. -/
theorem move_keepsLines {transfer : Transfer} {next : QueueMove} (keeps : transfer.KeepsLines)
    (clean : transfer.DropsBetweenLines next) : (transfer.move next).KeepsLines := by
  obtain ⟨kept, sublist, same⟩ := keeps
  cases next with
  | append lines cap =>
    -- Without a drop the new lines follow those that are there.
    have grows (fits : transfer.queue.overflow (TextLine.payload lines).length cap = 0) :
        (transfer.move (.append lines cap)).KeepsLines := by
      refine ⟨kept ++ lines, sublist.append_right lines, ?_⟩
      simp only [move, LineBytesQueue.append, fits, List.drop_zero, TextLine.payload_append,
        ← List.append_assoc, same]
    by_cases drops : lines ≠ [] ∧ 0 < cap ∧
      cap < transfer.queue.size + (TextLine.payload lines).length
    · -- The reader is at a line start, so the queue holds whole lines, and whole lines are dropped.
      have atStart := clean drops.1 drops.2.1 drops.2.2
      obtain ⟨front, back, rfl, received, queued⟩ := TextLine.payload_eq_append same atStart
      obtain ⟨rest, ⟨gone, cut⟩, left⟩ := LineBytesQueue.drop_roundUp_payload back
        (min (transfer.queue.size + (TextLine.payload lines).length - cap) transfer.queue.size)
      have count : transfer.queue.overflow (TextLine.payload lines).length cap =
          LineBytesQueue.roundUp (TextLine.payload back)
            (min (transfer.queue.size + (TextLine.payload lines).length - cap)
              transfer.queue.size) := by
        rw [LineBytesQueue.overflow, if_neg (TextLine.payload_length_ne_zero drops.1),
          if_pos drops.2, queued]
      refine ⟨front ++ rest ++ lines, ?_, ?_⟩
      · have fewer : (front ++ rest).Sublist (front ++ back) :=
          (List.Sublist.refl front).append (List.IsSuffix.sublist ⟨gone, cut⟩)
        exact (fewer.trans sublist).append_right lines
      · simp only [move, LineBytesQueue.append, TextLine.payload_append, count]
        rw [queued, left, received]
        simp only [List.append_assoc]
    · apply grows
      unfold LineBytesQueue.overflow
      split
      · rfl
      · rename_i something
        rw [if_neg]
        intro full
        exact drops ⟨fun none_ => something (by simp [none_]), full⟩
  | read bufferSize =>
    refine ⟨kept, sublist, ?_⟩
    simp only [move, LineBytesQueue.read, List.append_assoc, List.take_append_drop, same]

/-- Whole lines in the stream are whole lines at the reader. -/
theorem KeepsLines.received_sublist {transfer : Transfer} (keeps : transfer.KeepsLines) :
    (splitLines newline transfer.received).1.Sublist (transfer.appended.map (·.text)) := by
  obtain ⟨kept, sublist, same⟩ := keeps
  have first := splitLines_prefix newline transfer.received transfer.queue.bytes
  rw [same, TextLine.splitLines_payload] at first
  exact first.sublist.trans (sublist.map _)

/-- In every run whose drops find the reader between two lines, no line is torn, no byte is lost
and the queue stays within its bound. -/
theorem run_wholeLines {moves : List QueueMove} {final : Transfer}
    (clean : CleanRun step DropsBetweenLines start moves)
    (done : moves.foldlM step start = some final) :
    final.WholeLines := by
  -- The invariant is carried by each move that meets its condition.
  have kept : final.KeepsLines ∧ final.Accounted ∧ final.Bounded := by
    refine clean.invariant (fun transfer => transfer.KeepsLines ∧ transfer.Accounted ∧
      transfer.Bounded)
      ?_ ⟨⟨[], .refl _, rfl⟩, ⟨[], rfl, rfl, rfl⟩, ?_⟩ done
    · rintro transfer next after ⟨keeps, accounted, bounded⟩ between moved
      obtain rfl : transfer.move next = after := by simpa [step] using moved
      exact ⟨move_keepsLines keeps between, move_accounted next accounted,
        move_bounded next bounded⟩
    · intro bound holds
      exact Nat.zero_le bound
  exact ⟨kept.1.received_sublist, kept.1, kept.2.1, kept.2.2⟩

/-- A drop between two lines: the reader has taken the first line whole. -/
def calmMoves : List QueueMove :=
  [.append [⟨bytes "abc", by decide⟩, ⟨bytes "x", by decide⟩] 6, .read 4,
    .append [⟨bytes "def", by decide⟩] 4, .read 3]

/-- Only whole lines are missing from what is received. -/
theorem calmMoves_wholeLines :
    ∃ final, calmMoves.foldlM step start = some final ∧ final.droppedCounter = 2 ∧
    final.received = bytes "abc\ndef" ∧ final.WholeLines := by
  suffices clean : CleanRun step DropsBetweenLines start calmMoves from
    ⟨_, rfl, by decide, by decide, run_wholeLines clean rfl⟩
  -- Move by move: the drop takes a line that nobody has begun to read.
  refine ⟨fun _ _ full => absurd full (by decide), fun _ first => ?_⟩
  cases first
  refine ⟨trivial, fun _ second => ?_⟩
  cases second
  refine ⟨fun _ _ _ => by decide, fun _ third => ?_⟩
  cases third
  exact ⟨trivial, fun _ _ => trivial⟩

/-- A drop inside a line: the reader has taken two bytes of it. -/
def tornMoves : List QueueMove :=
  [.append [⟨bytes "abc", by decide⟩] 4, .read 2, .append [⟨bytes "def", by decide⟩] 4, .read 4]

/-- The reader receives the line `abdef`, which nobody has sent. -/
theorem tornMoves_tears_line : ∃ final, tornMoves.foldlM step start = some final ∧
    (splitLines newline final.received).1 = [bytes "abdef"] ∧
    final.appended.map (·.text) = [bytes "abc", bytes "def"] ∧
    ¬(splitLines newline final.received).1.Sublist (final.appended.map (·.text)) :=
  ⟨_, rfl, by decide, by decide, by decide⟩

end Transfer

end Loglib
