import Loglib.Table.LogTable

/-! Sources that only grow: what a line has once read from its source, it reads for good. -/

namespace Loglib

/-- A slice that is all there is still the same after an append. -/
theorem slice_append_of_length {arena : Bytes} {offset length : Nat} (more : Bytes)
    (whole : (slice arena offset length).length = length) :
    slice (arena ++ more) offset length = slice arena offset length := by
  by_cases inside : offset + length ≤ arena.length
  · exact slice_append more inside
  · -- Outside the arena only the empty slice has the asked length.
    have nothing : slice arena offset length = [] := by simp [slice, inside]
    rw [nothing, List.length_nil] at whole
    subst whole
    simp [slice]

namespace StreamLineSource

/-- A held line has an arena. -/
theorem exists_arena {stream : StreamLineSource} {lineId : Nat}
    (live : stream.lineIsLive lineId = true) :
    ∃ bytes, stream.arena lineId = some bytes ∧
      stream.lineOwnedBytes[stream.indexFor lineId]? = some bytes := by
  have bound := live
  simp only [lineIsLive, Bool.and_eq_true, decide_eq_true_eq] at bound
  have counted := stream.counted
  have paired := stream.paired
  -- A live line has a place in the list of arenas.
  have inside : stream.indexFor lineId < stream.lineOwnedBytes.length := by
    unfold indexFor
    omega
  refine ⟨stream.lineOwnedBytes.get ⟨_, inside⟩, ?_, List.getElem?_eq_getElem inside⟩
  unfold arena
  rw [if_pos live]
  exact List.getElem?_eq_getElem inside

/-- After an append the line's arena is longer, and every other arena is the same. -/
theorem arena_appendOwnedBytes {stream grown : StreamLineSource} {lineId offset : Nat}
    {text : Bytes}
    (done : stream.appendOwnedBytes lineId text = some (grown, offset)) :
    ∃ bytes, stream.arena lineId = some bytes ∧ offset = bytes.length ∧
      ∀ other, grown.arena other =
        if other = lineId then some (bytes ++ text) else stream.arena other := by
  unfold appendOwnedBytes at done
  cases held : stream.arena lineId with
  | none => simp [held] at done
  | some bytes =>
    rw [held] at done
    obtain ⟨rfl, rfl⟩ := Prod.mk.inj (Option.some.inj done)
    refine ⟨bytes, rfl, rfl, ?_⟩
    have live : stream.lineIsLive lineId = true := by
      unfold arena at held
      split at held
      · assumption
      · contradiction
    obtain ⟨same, -, placed⟩ := exists_arena live
    intro other
    by_cases identical : other = lineId
    · subst identical
      rw [if_pos rfl]
      unfold arena
      have inside := (List.getElem?_eq_some_iff.mp placed).1
      show (if stream.lineIsLive other = true then
        (stream.lineOwnedBytes.set (stream.indexFor other) (bytes ++ text))[stream.indexFor other]?
          else none) = _
      rw [if_pos live, List.getElem?_set_self inside]
    · rw [if_neg identical]
      unfold arena
      show (if stream.lineIsLive other = true then
        (stream.lineOwnedBytes.set (stream.indexFor lineId) (bytes ++ text))[stream.indexFor other]?
          else none) = _
      by_cases otherLive : stream.lineIsLive other = true
      · -- Two different held lines have two different places.
        have apart : stream.indexFor lineId ≠ stream.indexFor other := by
          simp only [lineIsLive, Bool.and_eq_true, decide_eq_true_eq] at live otherLive
          unfold indexFor
          omega
        rw [if_pos otherLive, if_pos otherLive, List.getElem?_set_ne apart]
      · rw [if_neg otherLive, if_neg otherLive]

/-- A new line leaves the arenas of the held lines alone. -/
theorem arena_appendLine {stream : StreamLineSource} (rawLine ownedBytes : Bytes) {lineId : Nat}
    (live : stream.lineIsLive lineId = true) :
    (stream.appendLine rawLine ownedBytes).1.lineIsLive lineId = true ∧
      (stream.appendLine rawLine ownedBytes).1.arena lineId = stream.arena lineId := by
  have bound := live
  simp only [lineIsLive, Bool.and_eq_true, decide_eq_true_eq] at bound
  have counted := stream.counted
  have paired := stream.paired
  -- The line is still live, for only the end moves.
  have later : (stream.appendLine rawLine ownedBytes).1.lineIsLive lineId = true := by
    show (decide (stream.firstAvailableLineId ≤ lineId) &&
      decide (lineId < stream.nextLineId + 1)) = true
    simp only [Bool.and_eq_true, decide_eq_true_eq]
    omega
  refine ⟨later, ?_⟩
  unfold arena
  rw [if_pos later, if_pos live]
  -- Its place in the arenas is before the new one.
  have inside : stream.indexFor lineId < stream.lineOwnedBytes.length := by
    unfold indexFor
    omega
  exact List.getElem?_append_left inside

end StreamLineSource

namespace LineSource

/-- The source holds the line. Files hold every line they are asked about. -/
def Holds : LineSource → Nat → Prop
  | .file _, _ => True
  | .stream backing, lineId => backing.lineIsLive lineId = true

/-- The second source holds the lines of the first, and reads their bytes the same. -/
structure Extends (old new : LineSource) : Prop where
  holds : ∀ lineId, old.Holds lineId → new.Holds lineId
  mmap : ∀ offset length, new.resolveMmapBytes offset length = old.resolveMmapBytes offset length
  owned : ∀ lineId offset length, old.Holds lineId →
    (old.resolveOwnedBytes offset length lineId).length = length →
    new.resolveOwnedBytes offset length lineId = old.resolveOwnedBytes offset length lineId

/-- A source extends itself. -/
@[refl] theorem Extends.refl (source : LineSource) : source.Extends source :=
  ⟨fun _ held => held, fun _ _ => rfl, fun _ _ _ _ _ => rfl⟩

/-- Extensions compose. -/
theorem Extends.trans {first second third : LineSource} (left : first.Extends second)
    (right : second.Extends third) : first.Extends third where
  holds lineId held := right.holds lineId (left.holds lineId held)
  mmap offset length := (right.mmap offset length).trans (left.mmap offset length)
  owned lineId offset length held whole := by
    -- Bytes that were whole stay whole, and read the same in both steps.
    have same := left.owned lineId offset length held whole
    have still : (second.resolveOwnedBytes offset length lineId).length = length := by
      rw [same, whole]
    exact (right.owned lineId offset length (left.holds lineId held) still).trans same

/-- A file extends itself when only bytes are added behind its decoded strings. -/
theorem extends_file {old new : LogFile} (more : Bytes) (data : new.data = old.data)
    (owned : new.ownedStrings = old.ownedStrings ++ more) :
    (LineSource.file old).Extends (.file new) where
  -- The mapped bytes stay, and the owned ones only grow at the end.
  holds _ _ := trivial
  mmap offset length := by
    show slice new.data offset length = slice old.data offset length
    rw [data]
  owned _ offset length _ whole := by
    show slice new.ownedStrings offset length = slice old.ownedStrings offset length
    rw [owned]
    exact slice_append_of_length more whole

/-- A stream extends itself when a line is added. -/
theorem extends_appendLine (stream : StreamLineSource) (rawLine ownedBytes : Bytes) :
    (LineSource.stream stream).Extends (.stream (stream.appendLine rawLine ownedBytes).1) where
  holds _ live := (StreamLineSource.arena_appendLine rawLine ownedBytes live).1
  mmap _ _ := rfl
  owned lineId offset length live _ := by
    show StreamLineSource.resolveOwnedBytes _ _ _ _ = StreamLineSource.resolveOwnedBytes _ _ _ _
    unfold StreamLineSource.resolveOwnedBytes
    rw [(StreamLineSource.arena_appendLine rawLine ownedBytes live).2]

/-- Bytes appended for a held line are read back, and nothing that was read before changes. -/
theorem appendOwnedBytes_extends {source : LineSource} {lineId : Nat} (held : source.Holds lineId)
    (text : Bytes) : ∃ grown offset, source.appendOwnedBytes lineId text = some (grown, offset) ∧
      source.Extends grown ∧ grown.resolveOwnedBytes offset text.length lineId = text := by
  cases source with
  | file file =>
    refine ⟨_, _, rfl, extends_file text rfl rfl, ?_⟩
    exact slice_append_self file.ownedStrings text
  | stream stream =>
    obtain ⟨bytes, arena, -⟩ := StreamLineSource.exists_arena held
    obtain ⟨⟨grown, offset⟩, done⟩ : ∃ result,
      stream.appendOwnedBytes lineId text = some result := by
      unfold StreamLineSource.appendOwnedBytes
      rw [arena]
      exact ⟨_, rfl⟩
    obtain ⟨bytes', arena', place, arenas⟩ := StreamLineSource.arena_appendOwnedBytes done
    obtain rfl := Option.some.inj (arena.symm.trans arena')
    have live : ∀ other, grown.lineIsLive other = stream.lineIsLive other := by
      unfold StreamLineSource.appendOwnedBytes at done
      rw [arena] at done
      obtain ⟨rfl, -⟩ := Prod.mk.inj (Option.some.inj done)
      exact fun _ => rfl
    refine ⟨.stream grown, offset, by simp [appendOwnedBytes, done], ⟨?_, fun _ _ => rfl, ?_⟩, ?_⟩
    · intro other otherHeld
      show grown.lineIsLive other = true
      rw [live]
      exact otherHeld
    · intro other start length _ whole
      show StreamLineSource.resolveOwnedBytes _ _ _ _ = StreamLineSource.resolveOwnedBytes _ _ _ _
      have whole : (stream.resolveOwnedBytes start length other).length = length := whole
      unfold StreamLineSource.resolveOwnedBytes at whole ⊢
      rw [arenas other]
      by_cases same : other = lineId
      · -- The line's own arena has grown at its end.
        subst same
        rw [if_pos rfl, arena]
        rw [arena] at whole
        exact slice_append_of_length text whole
      · rw [if_neg same]
    · show StreamLineSource.resolveOwnedBytes _ _ _ _ = text
      unfold StreamLineSource.resolveOwnedBytes
      rw [arenas lineId, if_pos rfl, place]
      exact slice_append_self bytes text

end LineSource

/-- The second list serves every source of the first. -/
def SourcesExtend (old new : List LineSource) : Prop :=
  ∀ (position : Nat) (source : LineSource), old[position]? = some source →
    ∃ grown, new[position]? = some grown ∧ source.Extends grown

/-- Sources extend themselves. -/
@[refl] theorem SourcesExtend.refl (sources : List LineSource) : SourcesExtend sources sources :=
  fun _ source held => ⟨source, held, .refl source⟩

/-- Extensions compose. -/
theorem SourcesExtend.trans {first second third : List LineSource}
    (left : SourcesExtend first second) (right : SourcesExtend second third) :
    SourcesExtend first third := by
  intro position source held
  obtain ⟨middle, between, toMiddle⟩ := left position source held
  obtain ⟨last, final, toLast⟩ := right position middle between
  exact ⟨last, final, toMiddle.trans toLast⟩

/-- Replacing one source by an extension of it extends all sources. -/
theorem SourcesExtend.set {sources : List LineSource} {position : Nat} {source grown : LineSource}
    (held : sources[position]? = some source) (extended : source.Extends grown) :
    SourcesExtend sources (sources.set position grown) := by
  intro other found located
  by_cases same : position = other
  · subst same
    obtain rfl := Option.some.inj (held.symm.trans located)
    exact ⟨grown, List.getElem?_set_self (List.getElem?_eq_some_iff.mp held).1, extended⟩
  · exact ⟨found, by rw [List.getElem?_set_ne same, located], .refl found⟩

/-- A source added at the end extends the sources before it. -/
theorem SourcesExtend.append (sources added : List LineSource) :
    SourcesExtend sources (sources ++ added) := by
  intro position source held
  refine ⟨source, ?_, .refl source⟩
  rw [List.getElem?_append_left (List.getElem?_eq_some_iff.mp held).1, held]

namespace CompactLogValue

/-- All bytes of the slot are there. -/
def Readable (slot : CompactLogValue) (source : LineSource) (lineId : Nat) : Prop :=
  match slot with
  | .mmapSlice offset length =>
    (source.resolveMmapBytes offset length.toNat).length = length.toNat
  | .ownedString offset length =>
    (source.resolveOwnedBytes offset length.toNat lineId).length = length.toNat
  | _ => True

/-- A readable slot stays readable and reads the same from an extension of its source. -/
theorem Readable.extends {slot : CompactLogValue} {old new : LineSource} {lineId : Nat}
    (readable : slot.Readable old lineId) (held : old.Holds lineId) (extended : old.Extends new) :
    slot.Readable new lineId ∧ ∀ registry keyId,
      slot.materialise (some new) registry lineId keyId =
        slot.materialise (some old) registry lineId keyId := by
  -- Only the slots that point into a source can read anything else from a grown one.
  cases slot with
  | mmapSlice offset length =>
    have same := extended.mmap offset length.toNat
    refine ⟨?_, fun registry keyId => by simp [materialise, same]⟩
    show (new.resolveMmapBytes _ _).length = _
    rw [same]
    exact readable
  | ownedString offset length =>
    have same := extended.owned lineId offset length.toNat held readable
    refine ⟨?_, fun registry keyId => by simp [materialise, same]⟩
    show (new.resolveOwnedBytes _ _ _).length = _
    rw [same]
    exact readable
  | _ => exact ⟨trivial, fun _ _ => rfl⟩

end CompactLogValue

namespace LogLine

/-- The line's source holds it, with all bytes of its slots. -/
def Readable (sources : List LineSource) (line : LogLine) : Prop :=
  ∃ source, sources[line.source]? = some source ∧ source.Holds line.lineId ∧
    ∀ id slot, line.findCompact id = some slot → slot.Readable source line.lineId

/-- A readable line stays readable and reads the same when sources grow. -/
theorem Readable.extends {line : LogLine} {old new : List LineSource} (readable : line.Readable old)
    (extended : SourcesExtend old new) :
    line.Readable new ∧ ∀ registry id, line.getValue ⟨new, registry⟩ id =
      line.getValue ⟨old, registry⟩ id := by
  obtain ⟨source, located, held, slots⟩ := readable
  obtain ⟨grown, found, larger⟩ := extended line.source source located
  refine ⟨⟨grown, found, larger.holds _ held, fun id slot present =>
    ((slots id slot present).extends held larger).1⟩, ?_⟩
  intro registry id
  -- The slot is found in the same source, which has only grown.
  unfold getValue
  cases present : line.findCompact id with
  | none => rfl
  | some slot =>
    simp only [found, located]
    exact ((slots id slot present).extends held larger).2 registry id

end LogLine

end Loglib
