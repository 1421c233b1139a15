import Loglib.Basic.Runs
import Loglib.Tailing.TailingBytesProducer

/-! Tailing delivers whole lines, each generation of the file in order and once. -/

namespace Loglib

/-- Some complete lines of one generation, behind what was skipped of it. -/
structure Stretch where
  file : Nat
  epoch : Nat
  skipped : Bytes
  lines : List Bytes

namespace Stretch

/-- The lines with their newlines. -/
def text (stretch : Stretch) : Bytes := joinLines newline stretch.lines

/-- The lines are complete lines of the generation: what is skipped ends at a line start. -/
structure In (stretch : Stretch) (disk : Disk) : Prop where
  complete : ∀ line ∈ stretch.lines, newline ∉ line
  atStart : (splitLines newline stretch.skipped).2 = []
  there : ∃ content, disk.generation stretch.file stretch.epoch = some content ∧
    stretch.skipped ++ stretch.text <+: content

/-- The generation came before another one. -/
def Before (stretch : Stretch) (file epoch : Nat) : Prop :=
  stretch.file < file ∨ stretch.file = file ∧ stretch.epoch < epoch

/-- Later generations stay later. -/
theorem Before.mono {stretch : Stretch} {file epoch later : Nat}
    (before : stretch.Before file epoch)
    (notEarlier : epoch ≤ later) : stretch.Before file later := by
  rcases before with older | ⟨same, earlier⟩
  · exact .inl older
  · exact .inr ⟨same, earlier.trans_le notEarlier⟩

/-- Lines of a generation stay lines of it. -/
theorem In.grow {stretch : Stretch} {old new : Disk} (inside : stretch.In old)
    (grows : old.Grows new) :
    stretch.In new := by
  obtain ⟨content, there, starts⟩ := inside.there
  obtain ⟨later, still, goesOn⟩ := grows.generation there
  exact ⟨inside.complete, inside.atStart, later, still, starts.trans goesOn⟩

end Stretch

/-- All stretches but the first start at the top of their generation, and the first one there or
where the pre-fill put it. -/
def FromTop (initial : Bytes) (skips : List Bytes) : Prop :=
  ∃ first rest, skips = first :: rest ∧ (first = initial ∨ first = []) ∧ ∀ skip ∈ rest, skip = []

/-- One more from the top. -/
theorem FromTop.snoc {initial : Bytes} {skips : List Bytes} (fromTop : FromTop initial skips) :
    FromTop initial (skips ++ [[]]) := by
  obtain ⟨first, rest, rfl, known, others⟩ := fromTop
  refine ⟨first, rest ++ [[]], rfl, known, fun skip member => ?_⟩
  rcases List.mem_append.mp member with member | last
  · exact others skip member
  · exact List.mem_singleton.mp last

/-- The last one from the top instead. -/
theorem FromTop.replaceLast {initial : Bytes} {skips : List Bytes} {last : Bytes}
    (fromTop : FromTop initial (skips ++ [last])) : FromTop initial (skips ++ [[]]) := by
  obtain ⟨first, rest, same, known, others⟩ := fromTop
  -- Only the first stretch can start behind the top of its file.
  cases skips with
  | nil => exact ⟨[], [], rfl, .inr rfl, fun skip member => nomatch member⟩
  | cons skip skips =>
    obtain ⟨rfl, rfl⟩ := List.cons.inj same
    refine ⟨skip, skips ++ [[]], rfl, known, fun other member => ?_⟩
    rcases List.mem_append.mp member with member | last
    · exact others other (List.mem_append_left _ member)
    · exact List.mem_singleton.mp last

namespace TailingBytesProducer

/-- What was ready stays, and the newly complete lines come behind it. -/
theorem appendBytesAndSplit_ready {producer : TailingBytesProducer} (data : Bytes)
    (consumed : producer.readyConsumed ≤ producer.readyBuffer.length) :
    (producer.appendBytesAndSplit data).readyBuffer.drop producer.readyConsumed =
      producer.readyBuffer.drop producer.readyConsumed ++
        joinLines newline (splitLines newline (producer.partialLine ++ data)).1 := by
  simp only [appendBytesAndSplit]
  exact List.drop_append_of_le_length consumed

/-- A read by the consumer moves bytes, and leaves everything but the buffer alone. -/
theorem read_moves {producer : TailingBytesProducer} (bufferSize : Nat)
    (consumed : producer.readyConsumed ≤ producer.readyBuffer.length) :
    (producer.read bufferSize).1 ++
        (producer.read bufferSize).2.readyBuffer.drop (producer.read bufferSize).2.readyConsumed =
      producer.readyBuffer.drop producer.readyConsumed ∧
    (producer.read bufferSize).2.readyConsumed ≤ (producer.read bufferSize).2.readyBuffer.length ∧
    (producer.read bufferSize).2.handle = producer.handle ∧
    (producer.read bufferSize).2.readOffset = producer.readOffset ∧
    (producer.read bufferSize).2.partialLine = producer.partialLine := by
  unfold TailingBytesProducer.read compactReadyBufferIfNeeded
  simp only
  split
  · exact ⟨List.nil_append _, consumed, rfl, rfl, rfl⟩
  · have fits : producer.readyConsumed +
      min (producer.readyBuffer.drop producer.readyConsumed).length bufferSize ≤
        producer.readyBuffer.length := by
      rw [List.length_drop]
      omega
    have parts := List.take_append_drop
      (min (producer.readyBuffer.drop producer.readyConsumed).length bufferSize)
      (producer.readyBuffer.drop producer.readyConsumed)
    rw [List.drop_drop] at parts
    -- Compaction only moves the bytes that are left to the front.
    split
    · exact ⟨parts, Nat.zero_le _, rfl, rfl, rfl⟩
    · exact ⟨parts, fits, rfl, rfl, rfl⟩

end TailingBytesProducer

namespace Tailing

/-- What holds of a state between two moves: which generations are done, and what was skipped of
this one. Only the first generation may be read from a later place than its top. -/
structure Tracks (initial : Bytes) (state : Tailing) (closed : List Stretch)
    (skipped : Bytes) : Prop where
  some_ : 0 < state.disk.files.length
  consumed : state.producer.readyConsumed ≤ state.producer.readyBuffer.length
  offset : state.taken.length = state.producer.readOffset
  atStart : (splitLines newline skipped).2 = []
  begins : skipped <+: state.taken
  fromTop : FromTop initial (closed.map (·.skipped) ++ [skipped])
  sent : state.delivered = closed.flatMap (·.text) ++
    joinLines newline (splitLines newline (state.taken.drop skipped.length)).1
  whole : ∀ stretch ∈ closed, stretch.In state.disk
  ordered : closed.Pairwise fun first second => first.Before second.file second.epoch
  reading : ∀ file, state.producer.handle = some file → ∃ epoch content,
    state.disk.generation file epoch = some content ∧ state.taken <+: content ∧
      ∀ stretch ∈ closed, stretch.Before file epoch
  pending : state.producer.partialLine = [] ∨
    state.producer.partialLine = (splitLines newline state.taken).2
  buffered : state.torn = false → state.producer.partialLine = (splitLines newline state.taken).2
  lost : state.producer.handle = none → state.taken = [] ∧
    ∀ stretch ∈ closed, stretch.file + 1 < state.disk.files.length

variable {initial skipped : Bytes} {state : Tailing} {closed : List Stretch}

/-- Others may write in between. -/
theorem Tracks.grow (tracks : Tracks initial state closed skipped) {disk : Disk}
    (grows : state.disk.Grows disk) :
    Tracks initial { state with disk } closed skipped := by
  -- Files are only appended to, so what has been read of them is still their front.
  refine ⟨tracks.some_.trans_le grows.length_le, tracks.consumed, tracks.offset, tracks.atStart,
    tracks.begins,
    tracks.fromTop, tracks.sent,
    fun stretch member => (tracks.whole stretch member).grow grows, tracks.ordered,
    fun file opened => ?_,
    tracks.pending, tracks.buffered, fun closedHandle => ?_⟩
  · obtain ⟨epoch, content, there, starts, before⟩ := tracks.reading file opened
    obtain ⟨later, still, goesOn⟩ := grows.generation there
    exact ⟨epoch, later, still, starts.trans goesOn, before⟩
  · obtain ⟨nothing, older⟩ := tracks.lost closedHandle
    exact ⟨nothing, fun stretch member => (older stretch member).trans_le grows.length_le⟩

/-- A stretch is of the generation that is read now. -/
def ReadNow (state : Tailing) (stretch : Stretch) : Prop :=
  state.producer.handle = some stretch.file ∧ state.taken ≠ [] ∧
    ∃ content, state.disk.generation stretch.file stretch.epoch = some content ∧
      state.taken <+: content

/-- The generation that is read becomes one of those that are done. -/
theorem Tracks.close (tracks : Tracks initial state closed skipped) :
    ∃ all : List Stretch, FromTop initial (all.map (·.skipped) ++ [[]]) ∧
      state.delivered = all.flatMap (·.text) ∧ (∀ stretch ∈ all, stretch.In state.disk) ∧
      all.Pairwise (fun first second => first.Before second.file second.epoch) ∧
      (∀ stretch ∈ all, stretch ∈ closed ∨ state.ReadNow stretch) ∧
      (state.taken ≠ [] → ∃ last, all.getLast? = some last ∧
        state.producer.handle = some last.file ∧
        last.skipped ++ last.text ++ (splitLines newline state.taken).2 = state.taken ∧
        ∃ content, state.disk.generation last.file last.epoch = some content ∧
          state.taken <+: content) := by
  by_cases nothing : state.taken = []
  · -- Nothing was read of it.
    refine ⟨closed, tracks.fromTop.replaceLast, ?_, tracks.whole, tracks.ordered,
      fun stretch member => .inl member,
      fun some_ => absurd nothing some_⟩
    rw [tracks.sent, nothing]
    simp [splitLines]
  · obtain ⟨file, opened⟩ :=
      Option.ne_none_iff_exists'.mp fun none_ => nothing (tracks.lost none_).1
    obtain ⟨epoch, content, there, starts, before⟩ := tracks.reading file opened
    let own : Stretch := ⟨file, epoch, skipped,
      (splitLines newline (state.taken.drop skipped.length)).1⟩
    have complete : skipped ++ own.text ++ (splitLines newline state.taken).2 = state.taken := by
      obtain ⟨rest, parts⟩ := tracks.begins
      have pieces := joinLines_splitLines newline rest
      have pending : (splitLines newline state.taken).2 = (splitLines newline rest).2 := by
        rw [← parts, splitLines_append, tracks.atStart, List.nil_append]
      have lines : own.text = joinLines newline (splitLines newline rest).1 := by
        simp [own, Stretch.text, ← parts]
      rw [pending, lines, List.append_assoc, pieces, parts]
    have begins : skipped ++ own.text <+: state.taken := ⟨_, complete⟩
    have inside : own.In state.disk :=
      ⟨(not_mem_splitLines newline _).1, tracks.atStart, content, there, begins.trans starts⟩
    refine ⟨closed ++ [own], ?_, ?_, fun stretch member => ?_, ?_, fun stretch member => ?_,
      fun _ => ⟨own, List.getLast?_concat, opened, complete, content, there, starts⟩⟩
    · rw [List.map_append]
      exact tracks.fromTop.snoc
    · rw [tracks.sent]
      simp [own, Stretch.text]
    · rcases List.mem_append.mp member with done | new
      · exact tracks.whole stretch done
      · exact List.mem_singleton.mp new ▸ inside
    · refine List.pairwise_append.mpr ⟨tracks.ordered, List.pairwise_singleton _ _,
        fun first inClosed second inOwn => ?_⟩
      rw [List.mem_singleton.mp inOwn]
      exact before first inClosed
    · rcases List.mem_append.mp member with done | new
      · exact .inl done
      · rw [List.mem_singleton.mp new]
        exact .inr ⟨opened, nothing, content, there, starts⟩

/-- Reading starts over: with a newer file, with none, or with a later generation of the
same file. -/
theorem Tracks.startOver (tracks : Tracks initial state closed skipped)
    (producer : TailingBytesProducer)
    (ready : producer.readyBuffer = state.producer.readyBuffer ∧
    producer.readyConsumed = state.producer.readyConsumed)
    (atTop : producer.readOffset = 0 ∧ producer.partialLine = [])
    (later : ∀ file, producer.handle = some file →
    ∃ epoch content, state.disk.generation file epoch = some content ∧
      ∀ stretch, stretch ∈ closed ∨ state.ReadNow stretch → stretch.Before file epoch)
    (older : producer.handle = none →
      ∀ stretch, stretch ∈ closed ∨ state.ReadNow stretch →
        stretch.file + 1 < state.disk.files.length) :
    ∃ all, Tracks initial { state with producer, taken := [], torn := false } all [] := by
  -- The stretch being read is closed, and the next one starts at the top of its file.
  obtain ⟨all, fromTop, sent, whole, ordered, members, -⟩ := tracks.close
  refine ⟨all, tracks.some_, ?_, atTop.1.symm, rfl, List.prefix_rfl, fromTop, ?_, whole, ordered,
    fun file opened => ?_, .inl atTop.2, fun _ => atTop.2, fun closed => ?_⟩
  · rw [ready.1, ready.2]
    exact tracks.consumed
  · have same : ({ state with producer, taken := [], torn := false } : Tailing).delivered =
        state.delivered := by
      rw [delivered, delivered, ready.1, ready.2]
    rw [same, sent]
    simp [splitLines]
  · obtain ⟨epoch, content, there, before⟩ := later file opened
    exact ⟨epoch, content, there, List.nil_prefix, fun stretch member =>
      before stretch (members stretch member)⟩
  · exact ⟨rfl, fun stretch member => older closed stretch (members stretch member)⟩

/-- No stretch is of a file behind the one that is read. -/
theorem Tracks.file_le (tracks : Tracks initial state closed skipped) {file : Nat}
    (opened : state.producer.handle = some file) (stretch : Stretch)
    (member : stretch ∈ closed ∨ state.ReadNow stretch) :
    stretch.file ≤ file := by
  -- A closed stretch is of an older generation, and the open one of this file.
  rcases member with done | ⟨now, -⟩
  · obtain ⟨epoch, content, -, -, before⟩ := tracks.reading file opened
    rcases before stretch done with older | ⟨same, -⟩
    · exact older.le
    · exact same.le
  · rw [opened] at now
    exact (Option.some.inj now).ge

/-- The rest of the producer does not matter, nor does a part of a line that is dropped, where that
is noted. -/
theorem Tracks.congr (tracks : Tracks initial state closed skipped) (waiting torn : Bool)
    {partialLine : Bytes}
    (pending : partialLine = [] ∨ partialLine = state.producer.partialLine)
    (noted : torn = false → state.torn = false ∧
      (partialLine = state.producer.partialLine ∨ partialLine = [] ∧ midLine state.taken = false)) :
    Tracks initial { state with producer := { state.producer with waiting, partialLine }, torn }
      closed skipped := by
  refine ⟨tracks.some_, tracks.consumed, tracks.offset, tracks.atStart, tracks.begins,
    tracks.fromTop, tracks.sent,
    tracks.whole, tracks.ordered, tracks.reading, pending.elim .inl fun same =>
      same ▸ tracks.pending, fun whole => ?_,
    tracks.lost⟩
  obtain ⟨before, same | ⟨none_, ended⟩⟩ := noted whole
  · exact same.trans (tracks.buffered before)
  · -- Nothing is pending, and nothing was to be.
    have nothing : (splitLines newline state.taken).2 = [] := by simpa [midLine] using ended
    exact none_.trans nothing.symm

/-- The path names the newest file. -/
theorem fromPath_newest {disk : Disk} {file : Nat} (named : disk.fromPath = some file) :
    file = disk.files.length - 1 := by
  unfold Disk.fromPath at named
  split at named
  · exact (Option.some.inj named).symm
  · cases named

/-- A file that is opened is the newest one or came after the path was looked up. -/
theorem openForTail_newest {checked opening : Disk} (grows : checked.Grows opening) {fails : Bool}
    {file : Nat}
    (opened : opening.openForTail fails = some file) (some_ : 0 < checked.files.length) :
    checked.files.length ≤ file + 1 ∧ file < opening.files.length := by
  unfold Disk.openForTail at opened
  have longer := grows.length_le
  split at opened
  · cases opened
  · have newest := fromPath_newest opened
    omega

/-- The rotation check starts over or leaves the reading alone. -/
theorem Tracks.detect (tracks : Tracks initial state closed skipped) (gaps : PollGaps) :
    ∃ closed skipped, Tracks initial (state.detect gaps) closed skipped := by
  have toCheck := state.disk.acts_grows gaps.beforePathCheck
  unfold Tailing.detect TailingBytesProducer.detectAndRecoverRotation
  simp only
  generalize state.disk.acts gaps.beforePathCheck = checked at *
  have toOpen := checked.acts_grows gaps.beforeOpen
  generalize checked.acts gaps.beforeOpen = opening at *
  have toShrink := opening.acts_grows gaps.beforeShrinkCheck
  generalize opening.acts gaps.beforeShrinkCheck = shrunk at *
  have now := tracks.grow (toCheck.trans (toOpen.trans toShrink))
  have known := tracks.some_.trans_le toCheck.length_le
  -- Whatever is opened is there, and as new as the file that was looked up.
  have opens : ∀ file, opening.openForTail gaps.openFails = some file →
    checked.files.length ≤ file + 1 ∧
      ∃ epoch content, shrunk.generation file epoch = some content := by
    intro file opened
    obtain ⟨newest, there⟩ := openForTail_newest toOpen opened known
    obtain ⟨content, now⟩ := Disk.content_of_lt (there.trans_le toShrink.length_le)
    obtain ⟨epoch, generation, -⟩ := Disk.content_generation now
    exact ⟨newest, epoch, content, generation⟩
  split
  · -- Another file is under the path, so it is newer than the one that was read.
    rename_i moved
    obtain ⟨named, handleKnown, differs⟩ := moved
    obtain ⟨file, opened⟩ := Option.ne_none_iff_exists'.mp handleKnown
    obtain ⟨target, found⟩ := Option.ne_none_iff_exists'.mp named
    have newest := fromPath_newest found
    have newer : file + 1 < checked.files.length := by
      obtain ⟨epoch, content, there, -⟩ := tracks.reading file opened
      have bound := (Disk.lt_of_generation there).trans_le toCheck.length_le
      have other : target ≠ file := fun same => differs (by rw [found, opened, same])
      omega
    obtain ⟨all, started⟩ :=
      now.startOver (state.producer.reopen (opening.openForTail gaps.openFails)) ⟨rfl,
        rfl⟩ ⟨rfl, rfl⟩
      (fun next nextOpened => by
        obtain ⟨newest, epoch, content, there⟩ := opens next nextOpened
        refine ⟨epoch, content, there, fun stretch member => .inl ?_⟩
        have behind := now.file_le opened stretch member
        omega)
      (fun _ stretch member => by
        have behind := now.file_le opened stretch member
        have longer := (toOpen.trans toShrink).length_le
        show stretch.file + 1 < shrunk.files.length
        omega)
    exact ⟨all, [], started⟩
  · split
    · -- The path is missing. What was read of a line is dropped the first time, which is noted.
      rename_i missing
      refine ⟨closed, skipped, now.congr true _ ?_ fun whole => ?_⟩
      · split
        · exact .inr rfl
        · exact .inl rfl
      · simp only [missing, Option.isNone_none, Bool.not_false, Bool.true_and,
          Bool.or_eq_false_iff] at whole
        refine ⟨whole.1, ?_⟩
        cases waits : state.producer.waiting with
        | true => exact .inl (if_pos rfl)
        | false =>
          have ended := whole.2
          rw [waits] at ended
          exact .inr ⟨if_neg Bool.false_ne_true, by simpa using ended⟩
    · split
      · -- Nothing was open, and every stretch is of an older file than the newest.
        rename_i waits
        have none_ := waits.2
        have olds : ∀ stretch, stretch ∈ closed ∨
            ({ state with disk := shrunk } : Tailing).ReadNow stretch →
            stretch.file + 1 < checked.files.length := by
          rintro stretch (done | ⟨opened, -⟩)
          · exact ((tracks.lost none_).2 stretch done).trans_le toCheck.length_le
          · exact absurd (none_.symm.trans opened) (by simp)
        obtain ⟨all, started⟩ :=
          now.startOver (state.producer.reopen (opening.openForTail gaps.openFails)) ⟨rfl,
            rfl⟩ ⟨rfl, rfl⟩
          (fun next nextOpened => by
            obtain ⟨newest, epoch, content, there⟩ := opens next nextOpened
            refine ⟨epoch, content, there, fun stretch member => .inl ?_⟩
            have behind := olds stretch member
            omega)
          (fun _ stretch member =>
            (olds stretch member).trans_le ((toOpen.trans toShrink).length_le))
        exact ⟨all, [], started⟩
      · split
        · -- The file is shorter than what was read of it, so a later generation is written.
          rename_i short
          obtain ⟨size, sized, smaller⟩ := (Option.any_eq_true _ _).mp short
          obtain ⟨content, read, rfl⟩ := Option.map_eq_some_iff.mp sized
          obtain ⟨file, opened, there⟩ := Option.bind_eq_some_iff.mp read
          obtain ⟨epoch, generation, last⟩ := Disk.content_generation there
          have shorter : content.length < state.producer.readOffset := of_decide_eq_true smaller
          have passed : ∀ stretch, stretch ∈ closed ∨
              ({ state with disk := shrunk } : Tailing).ReadNow stretch →
              stretch.Before file epoch := by
            rintro stretch (done | ⟨sameFile, -, text, read, starts⟩)
            · obtain ⟨readEpoch, text, read, -, before⟩ := now.reading file opened
              rcases last readEpoch text read with earlier | ⟨same, -⟩
              · exact (before stretch done).mono earlier.le
              · exact (before stretch done).mono same.le
            · obtain rfl : file = stretch.file := Option.some.inj (opened.symm.trans sameFile)
              rcases last stretch.epoch text read with earlier | ⟨-, rfl⟩
              · exact .inr ⟨rfl, earlier⟩
              · -- The generation that was read is longer than this one.
                have longer := starts.length_le
                have offset := now.offset
                simp only at longer offset
                omega
          obtain ⟨all, started⟩ := now.startOver
            { state.producer with
              readOffset := 0
              waiting := false
              partialLine := []
              rotationCount := state.producer.rotationCount + 1 }
            ⟨rfl, rfl⟩ ⟨rfl, rfl⟩
            (fun next nextOpened => by
              obtain rfl : file = next := Option.some.inj (opened.symm.trans nextOpened)
              exact ⟨epoch, content, generation, passed⟩)
            (fun none_ => absurd (opened.symm.trans none_) (by simp))
          exact ⟨all, [], started⟩
        · rename_i present _ _
          refine ⟨closed, skipped, now.congr false _ (.inr rfl) fun whole => ?_⟩
          simp only [Bool.not_false, Bool.true_and, Bool.or_eq_false_iff] at whole
          exact ⟨whole.1, .inl rfl⟩

/-- What is read in one go behind what was taken is the next part of the file. -/
theorem take_append_pulled {content taken : Bytes} {offset : Nat}
    (goesOn : content.take offset = taken) (count : Nat) :
    taken ++ (content.drop offset).take count <+: content := by
  rw [← goesOn, ← List.take_add]
  exact List.take_prefix _ _

/-- A read that goes on where the last one stopped adds lines of the same generation. -/
theorem Tracks.pull (tracks : Tracks initial state closed skipped) (options : TailOptions)
    (gaps : PollGaps)
    (readsOn : state.pulled options gaps = [] ∨
      (state.readMoment gaps).openContent.take state.producer.readOffset = state.taken ∧
        state.torn = false) :
    Tracks initial (state.pull options gaps) closed skipped := by
  have grows := (state.disk.acts_grows gaps.beforeSize).trans (Disk.acts_grows _ gaps.beforeRead)
  have now := tracks.grow grows
  by_cases nothing : state.pulled options gaps = []
  · rw [Tailing.pull, nothing, List.append_nil, TailingBytesProducer.readMoreBytes, if_pos rfl]
    exact now
  · obtain ⟨goesOn, whole⟩ := readsOn.resolve_left nothing
    have partialLine := tracks.buffered whole
    -- Something was read, so there is a file behind the handle.
    obtain ⟨content, there⟩ : ∃ content,
      state.producer.handle.bind (state.readMoment gaps).disk.content = some content := by
      refine Option.ne_none_iff_exists'.mp fun none_ => nothing ?_
      rw [pulled, Disk.readAtOffset, none_]
      simp
    have data : state.pulled options gaps = (content.drop state.producer.readOffset).take
        (state.producer.bytesToRead options
          ((state.disk.acts gaps.beforeSize).sizeOfOpenHandle state.producer.handle)) := by
      have works : gaps.readFails = false := by
        by_contra fails
        exact nothing (by simp [pulled, Disk.readAtOffset, fails])
      simp [pulled, Disk.readAtOffset, works, there]
    have same : (state.readMoment gaps).openContent = content := by
      rw [openContent, readMoment]
      exact congrArg (Option.getD · []) there
    rw [same] at goesOn
    have part : state.taken ++ state.pulled options gaps <+: content := by
      rw [data]
      exact take_append_pulled goesOn _
    obtain ⟨file, opened, current⟩ := Option.bind_eq_some_iff.mp there
    obtain ⟨epoch, generation, last⟩ := Disk.content_generation current
    obtain ⟨rest, taken⟩ := tracks.begins
    -- The skipped part ends at a line start, so the pending part of a line is that of the rest.
    have pending : state.producer.partialLine = (splitLines newline rest).2 := by
      rw [partialLine, ← taken, splitLines_append, tracks.atStart, List.nil_append]
    have ready := TailingBytesProducer.appendBytesAndSplit_ready (state.pulled options gaps)
      tracks.consumed
    rw [Tailing.pull]
    generalize state.pulled options gaps = read at *
    have pendingAfter : (splitLines newline (state.producer.partialLine ++ read)).2 =
        (splitLines newline (state.taken ++ read)).2 := by
      rw [splitLines_append newline state.taken read, partialLine]
    have more : state.producer.readMoreBytes read =
        { state.producer.appendBytesAndSplit read with
          readOffset := state.producer.readOffset + read.length } := if_neg nothing
    rw [more]
    refine ⟨now.some_, ?_, ?_, tracks.atStart, ⟨rest ++ read, by rw [← List.append_assoc, taken]⟩,
      tracks.fromTop, ?_,
      now.whole, tracks.ordered, fun next nextOpened => ?_, .inr pendingAfter, fun _ =>
        pendingAfter, fun none_ => ?_⟩
    · simp only [TailingBytesProducer.appendBytesAndSplit, List.length_append]
      exact tracks.consumed.trans (Nat.le_add_right _ _)
    · show (state.taken ++ read).length = state.producer.readOffset + read.length
      rw [List.length_append, tracks.offset]
    · have before := tracks.sent
      simp only [delivered, ← taken, List.drop_left, List.append_assoc] at before ⊢
      rw [splitLines_append newline rest read, joinLines_append,
        ← List.append_assoc (closed.flatMap _), ← before,
        List.append_assoc, ← pending]
      exact congrArg (state.received ++ ·) ready
    · obtain rfl : file = next := Option.some.inj (opened.symm.trans nextOpened)
      refine ⟨epoch, content, generation, part, fun stretch done => ?_⟩
      obtain ⟨readEpoch, text, readText, -, before⟩ := now.reading file opened
      rcases last readEpoch text readText with earlier | ⟨same, -⟩
      · exact (before stretch done).mono earlier.le
      · exact (before stretch done).mono same.le
    · exact absurd (opened.symm.trans none_) (by simp)

/-- The consumer may read in between. -/
theorem Tracks.read (tracks : Tracks initial state closed skipped) (bufferSize : Nat) :
    Tracks initial
      { state with
        producer := (state.producer.read bufferSize).2
        received := state.received ++ (state.producer.read bufferSize).1 } closed skipped := by
  -- A read takes from the ready bytes only, so everything but them is as it was.
  obtain ⟨moves, consumed, handle, offset, partialLine⟩ :=
    TailingBytesProducer.read_moves bufferSize tracks.consumed
  refine ⟨tracks.some_, consumed, tracks.offset.trans offset.symm, tracks.atStart, tracks.begins,
    tracks.fromTop, ?_,
    tracks.whole, tracks.ordered, fun file opened => tracks.reading file (handle ▸ opened), ?_,
    fun whole => ?_,
    fun none_ => tracks.lost (handle ▸ none_)⟩
  · rw [← tracks.sent, delivered, delivered, List.append_assoc, moves]
  · rw [partialLine]
    exact tracks.pending
  · rw [partialLine]
    exact tracks.buffered whole

/-- A move keeps what holds between moves. -/
theorem Tracks.move (tracks : Tracks initial state closed skipped) {options : TailOptions}
    {next : TailMove}
    (readsOn : ReadsOn options state next) :
    ∃ closed skipped, Tracks initial (state.move options next) closed skipped := by
  cases next with
  | poll gaps =>
    obtain ⟨closed, skipped, detected⟩ := tracks.detect gaps
    exact ⟨closed, skipped, detected.pull options gaps readsOn⟩
  | read bufferSize => exact ⟨closed, skipped, tracks.read bufferSize⟩

/-- The rotation check leaves the buffer alone. -/
theorem detect_ready (state : Tailing) (gaps : PollGaps) :
    (state.detect gaps).producer.readyBuffer = state.producer.readyBuffer ∧
      (state.detect gaps).producer.readyConsumed = state.producer.readyConsumed ∧
      (state.detect gaps).received = state.received := by
  unfold Tailing.detect TailingBytesProducer.detectAndRecoverRotation
  simp only
  -- No branch touches what has been made ready.
  refine ⟨?_, ?_, trivial⟩ <;>
  · split
    · rfl
    · split
      · rfl
      · split
        · rfl
        · split <;> rfl

/-- What is delivered stays delivered. -/
theorem delivered_move (options : TailOptions) (next : TailMove)
    (consumed : state.producer.readyConsumed ≤ state.producer.readyBuffer.length) :
    state.delivered <+: (state.move options next).delivered := by
  cases next with
  -- A read moves bytes that were ready to those that are delivered.
  | read bufferSize =>
    obtain ⟨moves, -⟩ := TailingBytesProducer.read_moves bufferSize consumed
    rw [Tailing.move, delivered, delivered, List.append_assoc, moves]
  -- A poll adds whole lines to what is ready.
  | poll gaps =>
    obtain ⟨ready, count, received⟩ := state.detect_ready gaps
    have same : (state.detect gaps).delivered = state.delivered := by
      rw [delivered, delivered, ready, count, received]
    rw [← count, ← ready] at consumed
    rw [← same, Tailing.move, Tailing.pull]
    generalize (state.detect gaps).pulled options gaps = read
    unfold TailingBytesProducer.readMoreBytes
    split
    · exact List.prefix_rfl
    · have ready := TailingBytesProducer.appendBytesAndSplit_ready read consumed
      refine ⟨joinLines newline
        (splitLines newline ((state.detect gaps).producer.partialLine ++ read)).1, ?_⟩
      rw [delivered, List.append_assoc, ← ready]
      rfl

/-- What the consumer gets: complete lines of generations in order, each generation once.
The last generation that was read is complete up to the read offset, and a pending part of
a line goes on there. -/
structure DeliversWholeLines (initial : Bytes) (state : Tailing) : Prop where
  stretches : ∃ stretches : List Stretch, state.delivered = stretches.flatMap (·.text) ∧
    (∀ stretch ∈ stretches, stretch.In state.disk) ∧
    stretches.Pairwise (fun first second => first.Before second.file second.epoch) ∧
    FromTop initial (stretches.map (·.skipped) ++ [[]]) ∧
    (state.taken ≠ [] → ∃ last, stretches.getLast? = some last ∧
      state.producer.handle = some last.file ∧
      last.skipped ++ last.text ++ (splitLines newline state.taken).2 = state.taken ∧
      ∃ content, state.disk.generation last.file last.epoch = some content ∧
        state.taken <+: content)
  offset : state.taken.length = state.producer.readOffset
  flushed : state.stop.delivered = state.delivered ∧
    (midLine state.taken = false ∨ state.torn = true) ∨
    state.producer.partialLine = (splitLines newline state.taken).2 ∧
      state.stop.delivered = state.delivered ++ state.producer.partialLine ++ [newline]

/-- What holds between moves says what the consumer gets. -/
theorem Tracks.deliversWholeLines (tracks : Tracks initial state closed skipped) :
    DeliversWholeLines initial state := by
  refine ⟨?_, tracks.offset, ?_⟩
  · obtain ⟨all, fromTop, sent, whole, ordered, -, last⟩ := tracks.close
    exact ⟨all, sent, whole, ordered, fromTop, last⟩
  · by_cases nothing : state.producer.partialLine = []
    · rw [stop, TailingBytesProducer.flushPartialLine, if_pos nothing]
      refine .inl ⟨rfl, ?_⟩
      cases torn : state.torn with
      | true => exact .inr rfl
      | false =>
        have ended := tracks.buffered torn
        exact .inl (by simp [midLine, ← ended, nothing])
    · have pending := tracks.pending.resolve_left nothing
      refine .inr ⟨pending, ?_⟩
      -- The pending part has no newline, so one is added.
      have unended : (state.producer.readyBuffer ++ state.producer.partialLine).getLast? ≠
          some newline := by
        intro ends
        rw [List.getLast?_append_of_ne_nil _ nothing] at ends
        have inside : newline ∈ state.producer.partialLine := List.mem_of_getLast? ends
        rw [pending] at inside
        exact (not_mem_splitLines newline state.taken).2 inside
      rw [stop, TailingBytesProducer.flushPartialLine, if_neg nothing]
      simp only [delivered, if_neg unended, List.append_assoc]
      rw [List.drop_append_of_le_length tracks.consumed]

end Tailing

end Loglib
