import Loglib.Pipeline.StdinQueue

/-! Datagrams behind the byte queue: each goes in with a newline at its end, and comes out
in whole lines. -/

namespace Loglib

/-- A datagram with the newline that it may lack. -/
def framed (data : Bytes) : Bytes :=
  if data = [] then []
  else if data.getLast? = some newline then data else data ++ [newline]

/-- The lines of a datagram. -/
def datagramLines (data : Bytes) : List Bytes := (splitLines newline (framed data)).1

/-- A UDP producer in use, with the datagrams it has received. -/
structure UdpTransfer where
  /-- `mReadyBuffer` with its cap and its counter, as chunks go in and come out. -/
  ready : StdinTransfer
  datagrams : List Bytes

/-- What the worker and the consumer do. -/
inductive UdpMove where
  | datagram (data : Bytes)
  | read (bufferSize : Nat)

namespace UdpTransfer

/-- The producer before its first datagram. -/
def start (cap : Nat) : UdpTransfer := ⟨.start cap, []⟩

/-- `AppendDatagramLocked`: a newline that is added is an append of its own. -/
def appendDatagram (ready : StdinTransfer) (data : Bytes) : StdinTransfer :=
  if data = [] then ready
  else if data.getLast? = some newline then ready.move (.append data)
  else (ready.move (.append data)).move (.append [newline])

/-- One move of either side, each under the lock. -/
def move (transfer : UdpTransfer) : UdpMove → UdpTransfer
  | .datagram data => ⟨appendDatagram transfer.ready data, transfer.datagrams ++ [data]⟩
  | .read bufferSize => { transfer with ready := transfer.ready.move (.read bufferSize) }

/-- A move never fails. -/
def step (transfer : UdpTransfer) (next : UdpMove) : Option UdpTransfer := some (transfer.move next)

/-- A datagram that does not fit finds the reader at the start of a line. Where it lacks its
newline, the datagram fits into the cap with it, or its last line does so with a byte to spare. -/
def KeepsWhole (transfer : UdpTransfer) : UdpMove → Prop
  | .datagram data =>
    data ≠ [] → 0 < transfer.ready.cap →
      (transfer.ready.cap < transfer.ready.queue.size + (framed data).length →
        (splitLines newline transfer.ready.delivered).2 = []) ∧
      (data.getLast? ≠ some newline → data.length + 1 ≤ transfer.ready.cap ∨
        (splitLines newline data).2.length + 2 ≤ transfer.ready.cap)
  | .read _ => True

/-- The datagrams that lack their newline. -/
def unterminated (datagrams : List Bytes) : Nat :=
  datagrams.countP fun data => data ≠ [] ∧ data.getLast? ≠ some newline

/-- What is read is made of whole lines of the datagrams, in order and once, also when the rest of
the queue has been read, and every byte is accounted for. -/
structure WholeDatagrams (transfer : UdpTransfer) : Prop where
  read : (splitLines newline transfer.ready.delivered).1.Sublist
    (transfer.datagrams.flatMap datagramLines)
  readOut : ∃ kept : List Bytes, kept.Sublist (transfer.datagrams.flatMap datagramLines) ∧
    splitLines newline (transfer.ready.delivered ++ transfer.ready.queue.bytes) = (kept, [])
  accounted : transfer.ready.delivered.length + transfer.ready.queue.size + transfer.ready.dropped =
    (transfer.datagrams.map List.length).sum + unterminated transfer.datagrams

section Frames

variable {data text : Bytes}

/-- Bytes that end with a newline have no open line. -/
theorem closed_of_getLast (ends : text.getLast? = some newline) :
    (splitLines newline text).2 = [] := by
  obtain ⟨front, rfl⟩ := List.getLast?_eq_some_iff.mp ends
  rw [splitLines_concat]

/-- Every place of closed lines has a newline at or behind it. -/
theorem newline_mem_drop (closed : (splitLines newline text).2 = []) (place : Nat)
    (inside : place < text.length) :
    newline ∈ text.drop place := by
  by_contra absent
  have parts := splitLines_append newline (text.take place) (text.drop place)
  -- Without a newline behind the place, the last line would be open.
  have open_ : newline ∉ (splitLines newline (text.take place)).2 ++ text.drop place := by
    rw [List.mem_append, not_or]
    exact ⟨(not_mem_splitLines newline (text.take place)).2, absent⟩
  rw [List.take_append_drop, splitLines_of_not_mem newline open_] at parts
  rw [parts] at closed
  have nothing := (List.append_eq_nil_iff.mp closed).2
  rw [List.drop_eq_nil_iff] at nothing
  omega

/-- A framed datagram has no open line. -/
theorem framed_closed (data : Bytes) : (splitLines newline (framed data)).2 = [] := by
  unfold framed
  -- A datagram that is not ended gets a newline.
  split
  · rfl
  · split
    · rename_i ends
      exact closed_of_getLast ends
    · rw [splitLines_concat]

/-- The lines of framed datagrams, one after the other. -/
theorem splitLines_framed (datagrams : List Bytes) :
    splitLines newline (datagrams.flatMap framed) = (datagrams.flatMap datagramLines, []) := by
  induction datagrams with
  | nil => rfl
  | cons data datagrams ih =>
    rw [List.flatMap_cons, StdinTransfer.splitLines_of_closed (framed_closed data), ih]
    rfl

/-- Framing adds one byte to each unterminated datagram. -/
theorem length_framed (datagrams : List Bytes) :
    (datagrams.flatMap framed).length = (datagrams.map List.length).sum +
      unterminated datagrams := by
  induction datagrams with
  | nil => rfl
  | cons data datagrams ih =>
    -- One datagram grows by a newline if it lacks one.
    have one : (framed data).length =
        data.length + if data ≠ [] ∧ data.getLast? ≠ some newline then 1 else 0 := by
      unfold framed
      split
      · rename_i none_
        simp [none_]
      · rename_i some_
        split
        · rename_i ends
          simp [ends]
        · rename_i lacks
          simp [some_, lacks]
    unfold unterminated at ih ⊢
    rw [List.flatMap_cons, List.length_append, ih, one, List.map_cons, List.sum_cons,
      List.countP_cons]
    simp only [decide_eq_true_eq]
    omega

end Frames

/-- The queue's own invariant, and what has gone in. -/
structure Sound (transfer : UdpTransfer) : Prop where
  keeps : transfer.ready.KeepsLines
  accounted : transfer.ready.Accounted
  input : transfer.ready.input = transfer.datagrams.flatMap framed

/-- A datagram goes in with its newline. -/
theorem appendDatagram_input (ready : StdinTransfer) (data : Bytes) :
    (appendDatagram ready data).input = ready.input ++ framed data := by
  unfold appendDatagram framed
  split
  · simp
  · split
    · rfl
    · simp [StdinTransfer.move]

/-- A datagram keeps the account. -/
theorem appendDatagram_accounted {ready : StdinTransfer} (accounted : ready.Accounted)
    (data : Bytes) :
    (appendDatagram ready data).Accounted := by
  unfold appendDatagram
  split
  · exact accounted
  · split
    · exact StdinTransfer.move_accounted _ accounted
    · exact StdinTransfer.move_accounted _ (StdinTransfer.move_accounted _ accounted)

section Appending

variable {ready : StdinTransfer} {data : Bytes}

/-- In front of a reader at the start of a line, the queue has whole lines. -/
theorem queue_closed (keeps : ready.KeepsLines) (closed : (splitLines newline ready.input).2 = [])
    (atStart : (splitLines newline ready.delivered).2 = []) :
    (splitLines newline ready.queue.bytes).2 = [] := by
  -- The reader stands behind a newline, so the open line of the input is that of the queue.
  have openLine := keeps.openLine
  rw [StdinTransfer.splitLines_of_closed atStart, closed] at openLine
  exact openLine

/-- A chunk that does not fit drops whole lines, if the reader has whole lines then. -/
theorem append_dropsWholeLines (keeps : ready.KeepsLines)
    (closed : (splitLines newline ready.input).2 = [])
    (atStart : 0 < ready.cap → ready.cap < ready.queue.size + data.length →
      (splitLines newline ready.delivered).2 = []) : ready.DropsWholeLines (.append data) :=
  fun capped full _ => ⟨atStart capped full, .inl (queue_closed keeps closed (atStart capped full))⟩

/-- The newline of a datagram whose last line is shorter than the cap leaves this line. -/
theorem newline_dropsWholeLines (keeps : (ready.move (.append data)).KeepsLines)
    (closed : (splitLines newline ready.input).2 = [])
    (atStart : ready.cap < (ready.move (.append data)).queue.size + 1 →
    (splitLines newline ready.delivered).2 = [])
    (short : (splitLines newline data).2.length + 2 ≤ ready.cap) :
    (ready.move (.append data)).DropsWholeLines (.append [newline]) := by
  intro _ full _
  have full : ready.cap < (ready.move (.append data)).queue.size + 1 := full
  refine ⟨atStart full, .inr ?_⟩
  -- The queue ends with the open line of the datagram, and the drop stops in front of that line.
  have last : (splitLines newline (ready.move (.append data)).queue.bytes).2 =
      (splitLines newline data).2 := by
    have openLine := keeps.openLine
    have input : (ready.move (.append data)).input = ready.input ++ data := rfl
    have delivered : (ready.move (.append data)).delivered = ready.delivered := rfl
    rw [input, delivered, StdinTransfer.splitLines_of_closed closed,
      StdinTransfer.splitLines_of_closed (atStart full)] at openLine
    exact openLine
  have pieces := joinLines_splitLines newline (ready.move (.append data)).queue.bytes
  rw [last] at pieces
  show newline ∈ (ready.move (.append data)).queue.bytes.drop
    ((ready.move (.append data)).queue.size + 1 - ready.cap)
  have size : (ready.move (.append data)).queue.size =
      (ready.move (.append data)).queue.bytes.length := rfl
  rw [size] at full ⊢
  generalize (ready.move (.append data)).queue.bytes = queued at pieces full ⊢
  -- In front of the open line stand whole lines, and the drop ends in them.
  have whole : (splitLines newline (joinLines newline (splitLines newline queued).1)).2 = [] := by
    rw [splitLines_joinLines newline (not_mem_splitLines newline queued).1]
  generalize joinLines newline (splitLines newline queued).1 = lines at pieces whole
  rw [← pieces, List.length_append] at full ⊢
  rw [List.drop_append_of_le_length (by omega), List.mem_append]
  exact .inl (newline_mem_drop whole _ (by omega))

/-- Behind one line that fills the cap, its newline finds no room only where a lone newline was
queued, which stays. -/
theorem exact_keepsLines (keeps : ready.KeepsLines)
    (closed : (splitLines newline ready.input).2 = [])
    (single : newline ∉ data) (some_ : data ≠ []) (fills : ready.cap = data.length + 1)
    (atStart : ready.queue.bytes ≠ [] → (splitLines newline ready.delivered).2 = []) :
    ((ready.move (.append data)).move (.append [newline])).KeepsLines := by
  have length := List.length_pos_of_ne_nil some_
  have first : ready.DropsWholeLines (.append data) :=
    fun _ _ queued => ⟨atStart queued, .inl (queue_closed keeps closed (atStart queued))⟩
  have kept := StdinTransfer.move_keepsLines keeps first
  have appended : (ready.move (.append data)).queue.bytes =
      ready.queue.bytes.drop (ready.queue.overflow data.length ready.cap) ++ data := rfl
  -- Either nothing is queued behind the first append, or the one byte that was queued before it.
  have fits (alone : ready.queue.bytes.drop (ready.queue.overflow data.length ready.cap) = []) :
      (ready.move (.append data)).DropsWholeLines (.append [newline]) := by
    intro _ full _
    have full : ready.cap < (ready.move (.append data)).queue.bytes.length + 1 := full
    rw [appended, alone, List.nil_append] at full
    omega
  by_cases queued : ready.queue.bytes = []
  · exact StdinTransfer.move_keepsLines kept (fits (by rw [queued, List.drop_nil]))
  · have start := atStart queued
    have whole := queue_closed keeps closed start
    have ends := newline_mem_drop whole (ready.queue.bytes.length - 1)
      (Nat.sub_lt (List.length_pos_of_ne_nil queued) Nat.one_pos)
    obtain ⟨front, byte, cut⟩ := (List.eq_nil_or_concat ready.queue.bytes).resolve_left queued
    rw [List.concat_eq_append] at cut
    -- What was queued ends with a newline.
    have last : byte = newline := by
      rw [cut, List.length_append, List.length_singleton, Nat.add_sub_cancel,
        List.drop_left] at ends
      exact (List.mem_singleton.mp ends).symm
    subst last
    have size : ready.queue.size = front.length + 1 := by
      rw [LineBytesQueue.size, cut, List.length_append, List.length_singleton]
    cases front with
    | cons head front =>
      -- More than a newline was queued, and the first append drops all of it.
      refine StdinTransfer.move_keepsLines kept (fits ?_)
      have count : ready.queue.overflow data.length ready.cap =
          LineBytesQueue.roundUp ready.queue.bytes (head :: front).length := by
        rw [LineBytesQueue.overflow, if_neg (by omega), if_pos, size]
        · congr 1
          omega
        · rw [size, List.length_cons]
          omega
      rw [count, LineBytesQueue.drop_roundUp, cut, List.drop_left]
      rfl
    | nil =>
      -- A newline alone was queued, and the first append keeps it.
      have none_ : ready.queue.overflow data.length ready.cap = 0 := by
        rw [LineBytesQueue.overflow, if_neg (by omega), if_neg]
        rw [size, List.length_nil]
        omega
      rw [none_, List.drop_zero, cut] at appended
      have count : (ready.move (.append data)).queue.overflow 1 ready.cap =
          LineBytesQueue.roundUp (newline :: data) 1 := by
        have size : (ready.move (.append data)).queue.size = data.length + 1 := by
          rw [LineBytesQueue.size, appended]
          simp
        rw [LineBytesQueue.overflow, if_neg (by omega), if_pos (by rw [size]; omega),
          size, appended]
        congr 1
        omega
      have left : ((ready.move (.append data)).move (.append [newline])).queue.bytes =
          [newline] := by
        show (ready.move (.append data)).queue.bytes.drop
          ((ready.move (.append data)).queue.overflow 1 ready.cap) ++
          [newline] = [newline]
        rw [count, appended]
        show (newline :: data).drop _ ++ [newline] = [newline]
        -- The datagram has no newline of its own, so the drop for the newline takes it whole.
        have passes : ∀ item ∈ data, decide (item ≠ newline) = true :=
          fun item member => decide_eq_true fun same => single (same ▸ member)
        have behind : afterSeparator newline data = [] := by
          rw [afterSeparator, List.dropWhile_eq_nil_iff.mpr passes, List.drop_nil]
        rw [LineBytesQueue.drop_roundUp, List.drop_one, List.tail_cons, behind, List.nil_append]
      have stream : ((ready.move (.append data)).move (.append [newline])).delivered ++
          ((ready.move (.append data)).move (.append [newline])).queue.bytes = ready.delivered ++
            ready.queue.bytes := by
        rw [left, cut]
        rfl
      have input : ((ready.move (.append data)).move (.append [newline])).input = ready.input ++
          (data ++ [newline]) :=
        List.append_assoc _ _ _
      refine ⟨?_, ?_⟩
      · rw [stream, input]
        have first := splitLines_prefix newline ready.input (data ++ [newline])
        exact keeps.lines.trans first.sublist
      · rw [stream, input, keeps.openLine, closed, ← List.append_assoc, splitLines_concat]

/-- A datagram under the conditions keeps the lines. -/
theorem appendDatagram_keepsLines (keeps : ready.KeepsLines)
    (closed : (splitLines newline ready.input).2 = [])
    {datagrams : List Bytes} (clean : KeepsWhole ⟨ready, datagrams⟩ (.datagram data)) :
    (appendDatagram ready data).KeepsLines := by
  unfold appendDatagram
  split
  · exact keeps
  · rename_i some_
    have clean := clean some_
    split
    · rename_i ends
      -- The datagram ends with a newline, so that one append is all.
      have whole : framed data = data := by rw [framed, if_neg some_, if_pos ends]
      rw [whole] at clean
      exact StdinTransfer.move_keepsLines keeps
        (append_dropsWholeLines keeps closed fun capped full => (clean capped).1 full)
    · rename_i lacks
      -- A newline is appended behind it.
      have whole : (framed data).length = data.length + 1 := by
        rw [framed, if_neg some_, if_neg lacks, List.length_append, List.length_singleton]
      rw [whole] at clean
      have first : ready.DropsWholeLines (.append data) :=
        append_dropsWholeLines keeps closed fun capped full =>
          (clean capped).1 (by simp only; omega)
      have kept := StdinTransfer.move_keepsLines keeps first
      rcases Nat.eq_zero_or_pos ready.cap with uncapped | capped
      · exact StdinTransfer.move_keepsLines kept fun absurd_ => absurd absurd_ (by
          show ¬0 < ready.cap
          omega)
      · obtain ⟨atStart, room⟩ := clean capped
        have room := room lacks
        simp only at atStart room
        have smaller : (ready.move (.append data)).queue.size ≤ ready.queue.size + data.length := by
          show (ready.queue.bytes.drop _ ++ data).length ≤ ready.queue.bytes.length + data.length
          rw [List.length_append, List.length_drop]
          omega
        by_cases short : (splitLines newline data).2.length + 2 ≤ ready.cap
        · exact StdinTransfer.move_keepsLines kept
            (newline_dropsWholeLines kept closed (fun full => atStart (by omega)) short)
        · -- The last line fills the cap, so it is the whole datagram.
          have pieces := joinLines_splitLines newline data
          have lengths := congrArg List.length pieces
          rw [List.length_append] at lengths
          have alone : (joinLines newline (splitLines newline data).1).length = 0 := by omega
          rw [List.length_eq_zero_iff] at alone
          rw [alone, List.nil_append] at pieces
          have single : newline ∉ data := pieces ▸ (not_mem_splitLines newline data).2
          refine exact_keepsLines keeps closed single some_ (by omega) fun queued => atStart ?_
          have := List.length_pos_of_ne_nil queued
          rw [LineBytesQueue.size]
          omega

end Appending

/-- A move under the conditions keeps the invariant. -/
theorem move_sound {transfer : UdpTransfer} {next : UdpMove} (sound : transfer.Sound)
    (clean : transfer.KeepsWhole next) :
    (transfer.move next).Sound := by
  -- All datagrams so far end with newlines.
  have closed : (splitLines newline transfer.ready.input).2 = [] := by
    rw [sound.input, splitLines_framed]
  cases next with
  | datagram data =>
    refine ⟨appendDatagram_keepsLines sound.keeps closed clean,
      appendDatagram_accounted sound.accounted data, ?_⟩
    show (appendDatagram transfer.ready data).input = (transfer.datagrams ++ [data]).flatMap framed
    rw [appendDatagram_input, sound.input, List.flatMap_append, List.flatMap_singleton]
  | read bufferSize =>
    exact ⟨@StdinTransfer.move_keepsLines _ (.read bufferSize) sound.keeps trivial,
      StdinTransfer.move_accounted (.read bufferSize) sound.accounted, sound.input⟩

/-- Under the invariant, datagrams come out in whole lines. -/
theorem Sound.wholeDatagrams {transfer : UdpTransfer} (sound : transfer.Sound) :
    transfer.WholeDatagrams := by
  have lines := sound.keeps.lines
  have openLine := sound.keeps.openLine
  have account := sound.accounted
  unfold StdinTransfer.Accounted at account
  rw [sound.input, splitLines_framed] at lines openLine
  rw [sound.input, length_framed] at account
  -- The reader has a prefix of what is delivered and queued.
  have first := splitLines_prefix newline transfer.ready.delivered transfer.ready.queue.bytes
  exact ⟨first.sublist.trans lines, ⟨_, lines, Prod.ext rfl openLine⟩, account⟩

/-- In every run whose datagrams meet the conditions, they come out in whole lines and every byte is
accounted for. -/
theorem run_wholeDatagrams {cap : Nat} {moves : List UdpMove} {final : UdpTransfer}
    (clean : CleanRun step KeepsWhole (start cap) moves)
    (done : moves.foldlM step (start cap) = some final) :
    final.WholeDatagrams := by
  have sound : final.Sound := by
    refine clean.invariant Sound ?_ ⟨⟨.refl _, rfl⟩, rfl, rfl⟩ done
    -- The invariant is carried by each move that meets its condition.
    intro transfer next after holds condition moved
    obtain rfl : transfer.move next = after := by simpa [step] using moved
    exact move_sound holds condition
  exact sound.wholeDatagrams

/-- Datagrams with and without their newlines, and a drop between two of them. -/
def roomyMoves : List UdpMove :=
  [.datagram (bytes "ab"), .read 3, .datagram (bytes "c\n\nd"), .datagram (bytes "e\n"), .read 9]

/-- Only whole datagrams are missing from what is delivered. -/
theorem roomyMoves_wholeDatagrams :
    ∃ final, roomyMoves.foldlM step (start 5) = some final ∧ final.ready.dropped = 3 ∧
    final.ready.delivered = bytes "ab\nd\ne\n" ∧ final.WholeDatagrams := by
  suffices clean : CleanRun step KeepsWhole (start 5) roomyMoves from
    ⟨_, rfl, by decide, by decide, run_wholeDatagrams clean rfl⟩
  -- Move by move: what is appended is dropped whole or not at all.
  refine ⟨fun _ _ => ⟨by decide, by decide⟩, fun _ first => ?_⟩
  cases first
  refine ⟨trivial, fun _ second => ?_⟩
  cases second
  refine ⟨fun _ _ => ⟨by decide, by decide⟩, fun _ third => ?_⟩
  cases third
  refine ⟨fun _ _ => ⟨by decide, by decide⟩, fun _ fourth => ?_⟩
  cases fourth
  exact ⟨trivial, fun _ _ => trivial⟩

/-- A datagram that fills the cap is dropped by the append of its own newline. -/
def swallowedMoves : List UdpMove := [.datagram (bytes "abc"), .read 4]

/-- The reader receives an empty line, which no datagram contained. -/
theorem swallowedMoves_empty_line : ∃ final, swallowedMoves.foldlM step (start 3) = some final ∧
    (splitLines newline final.ready.delivered).1 = [[]] ∧
      final.datagrams.flatMap datagramLines = [bytes "abc"] ∧
    ¬final.WholeDatagrams := by
  have differs : ¬(splitLines newline (bytes "\n")).1.Sublist [bytes "abc"] := by decide
  exact ⟨_, rfl, by decide, by decide, fun whole => differs whole.read⟩

end UdpTransfer

end Loglib
