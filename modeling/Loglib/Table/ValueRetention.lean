import Loglib.Table.AutoDetection
import Loglib.Table.SourceGrowth

/-! Rewriting slots without changing values: encoding, materialising, and promoting timestamps. -/

namespace Loglib

/-- The value is still there, or it was text and is a timestamp now that may be read from it. -/
inductive LogValue.Kept (reads : Bytes → Int64 → Prop) : LogValue → LogValue → Prop where
  | same (value : LogValue) : Kept reads value value
  | stamped (text : Bytes) (microseconds : Int64) (read : reads text microseconds) :
      Kept reads (.string text) (.timestamp microseconds)

/-- A value that is kept twice is kept. -/
theorem LogValue.Kept.trans {reads : Bytes → Int64 → Prop} {first second third : LogValue}
    (left : first.Kept reads second) (right : second.Kept reads third) :
    first.Kept reads third := by
  cases left with
  | same => exact right
  | stamped text microseconds read =>
    -- A timestamp is no text, so it stays as it is.
    cases right with
    | same => exact .stamped text microseconds read

/-- More may be read from the text. -/
theorem LogValue.Kept.mono {reads more : Bytes → Int64 → Prop} {first second : LogValue}
    (kept : first.Kept reads second)
    (larger : ∀ text microseconds, reads text microseconds → more text microseconds) :
    first.Kept more second := by
  cases kept with
  | same => exact .same _
  | stamped text microseconds read =>
    exact .stamped text microseconds (larger text microseconds read)

namespace LogTable

/-- Which text under which key may become which timestamp. -/
abbrev Reads := KeyId → Bytes → Int64 → Prop

/-- The rows of the first table are rows of the second one, with all their values. -/
def KeepsValues (reads : Reads) (old new : LogTable) : Prop :=
  ∀ (row : Nat) line, old.lines[row]? = some line → ∃ later, new.lines[row]? = some later ∧
    ∀ id, (line.getValue old.context id).Kept (reads id) (later.getValue new.context id)

variable {reads : Reads}

/-- A table keeps its own values. -/
@[refl] theorem KeepsValues.refl (table : LogTable) : KeepsValues reads table table :=
  fun _ line held => ⟨line, held, fun _ => .same _⟩

/-- Values that are kept twice are kept. -/
theorem KeepsValues.trans {first second third : LogTable} (left : KeepsValues reads first second)
    (right : KeepsValues reads second third) : KeepsValues reads first third := by
  intro row line held
  obtain ⟨middle, between, toMiddle⟩ := left row line held
  obtain ⟨last, final, toLast⟩ := right row middle between
  exact ⟨last, final, fun id => (toMiddle id).trans (toLast id)⟩

/-- More may be read from the text. -/
theorem KeepsValues.mono {more : Reads} {old new : LogTable} (keeps : KeepsValues reads old new)
    (larger : ∀ id text microseconds, reads id text microseconds → more id text microseconds) :
    KeepsValues more old new := by
  intro row line held
  obtain ⟨later, found, kept⟩ := keeps row line held
  exact ⟨later, found, fun id => (kept id).mono (larger id)⟩

/-- The rows have all their bytes, their ids resolve, and the dictionaries hold texts of
32-bit lengths. -/
structure Healthy (table : LogTable) : Prop where
  readable : ∀ line ∈ table.lines, line.Readable table.sources
  resolved : ∀ line ∈ table.lines, ∀ id vid, line.findCompact id = some (.dictRef vid) →
    ∃ dict, table.enumDictionaries.find id = some dict ∧ vid < dict.size
  short : ∀ id dict, table.enumDictionaries.find id = some dict →
    ∀ text ∈ dict.values.names, text.length < 2 ^ 32

end LogTable

namespace LogLine

/-- A slot that is left alone reads the same when sources and dictionaries grow. -/
theorem getValue_grown {line later : LogLine} {old new : SlotContext} {id : KeyId}
    (readable : line.Readable old.sources) (extended : SourcesExtend old.sources new.sources)
    (source : later.source = line.source) (lineId : later.lineId = line.lineId)
    (slot : later.findCompact id = line.findCompact id)
    (resolved : ∀ vid, line.findCompact id = some (.dictRef vid) →
      ∃ dict grown, old.registry.find id = some dict ∧ new.registry.find id = some grown ∧
        vid < dict.size ∧ dict.Grows grown) :
    later.getValue new id = line.getValue old id := by
  have same := (readable.extends extended).2 old.registry id
  obtain ⟨held, located, -⟩ := (readable.extends extended).1
  have new_ : line.getValue ⟨new.sources, old.registry⟩ id = line.getValue old id := same
  rw [← new_]
  unfold getValue
  rw [slot, source, lineId]
  cases present : line.findCompact id with
  | none => rfl
  | some slot =>
    simp only
    by_cases raw : slot.isDictRef = false
    · exact CompactLogValue.materialise_congr raw _ _ _ _ _ _
    · -- A dictionary slot finds the same bytes in the longer dictionary.
      cases slot with
      | dictRef vid =>
        obtain ⟨dict, grown, before, after, bound, grows⟩ := resolved vid present
        simp [CompactLogValue.materialise, located, before, after, grows.resolve bound]
      | _ => exact absurd rfl raw

/-- A raw string slot of a readable line peeks as the text that its key shows. -/
theorem Readable.peek_of_raw {line : LogLine} {sources : List LineSource}
    (readable : line.Readable sources) {id : KeyId} {slot : CompactLogValue}
    (found : line.findCompact id = some slot) (raw : slot.isRawString = true) :
    ∃ text, line.peekStringView sources slot = some text := by
  obtain ⟨source, located, -, slots⟩ := readable
  have whole := slots id slot found
  unfold peekStringView
  rw [located]
  cases slot with
  | mmapSlice offset length =>
    refine ⟨source.resolveMmapBytes offset length.toNat, ?_⟩
    have sized : (source.resolveMmapBytes offset length.toNat).length = length.toNat := whole
    simp only [CompactLogValue.peekStringView]
    rw [if_neg]
    -- An empty text has the length zero, which is the length the slot asks for.
    intro missing
    simp only [Bool.and_eq_true, List.isEmpty_iff, bne_iff_ne, ne_eq] at missing
    rw [missing.1, List.length_nil] at sized
    exact missing.2 (UInt32.toNat_inj.mp (by simpa using sized.symm))
  | ownedString offset length =>
    exact ⟨source.resolveOwnedBytes offset length.toNat line.lineId, rfl⟩
  | _ => simp [CompactLogValue.isRawString] at raw

/-- Text that a readable line peeks at is what its key shows, and has a 32-bit length. -/
theorem Readable.peeked {line : LogLine} {sources : List LineSource}
    (readable : line.Readable sources) {id : KeyId} {slot : CompactLogValue} {text : Bytes}
    (found : line.findCompact id = some slot)
    (peeked : line.peekStringView sources slot = some text) :
    text.length < 2 ^ 32 ∧ ∀ registry, line.getValue ⟨sources, registry⟩ id = .string text := by
  obtain ⟨source, located, -, slots⟩ := readable
  have whole := slots id slot found
  refine ⟨?_, fun registry => ?_⟩
  · -- A slice of the file or of the arena; its length is one of 32 bits.
    unfold peekStringView at peeked
    rw [located] at peeked
    cases slot with
    | mmapSlice offset length =>
      simp only [CompactLogValue.peekStringView] at peeked
      split at peeked
      · contradiction
      · rw [← Option.some.inj peeked]
        exact whole.trans_lt length.toNat_lt
    | ownedString offset length =>
      rw [← Option.some.inj peeked]
      exact whole.trans_lt length.toNat_lt
    | _ => simp [CompactLogValue.peekStringView] at peeked
  · -- The slot shows the text that is peeked.
    unfold getValue
    rw [found]
    exact CompactLogValue.materialise_of_peek peeked registry id

end LogLine

section Encoding

/-- The key under which the encoder looks for text to turn into an id: the first with a text that is
not too long. A row that has an id already has none. -/
def encodedKey (sources : List LineSource) (maxLen : Nat) (line : LogLine) :
    List KeyId → Option KeyId
  | [] => none
  | id :: rest =>
    match line.findCompact id with
    | none => encodedKey sources maxLen line rest
    | some slot =>
      -- A row that has a reference is left as it is.
      if slot.isDictRef then none
      else
        match line.peekStringView sources slot with
        | none => encodedKey sources maxLen line rest
        | some text =>
          if maxLen ≠ 0 ∧ maxLen < text.length then encodedKey sources maxLen line rest else some id

/-- A line after encoding: itself, or with the text slot that the encoder looks at turned
into an id. -/
inductive EncodedLine (sources : List LineSource) (maxLen : Nat) (aliasKeys : List KeyId)
    (dict : EnumDictionary)
    (line : LogLine) : LogLine → Prop where
  | kept : EncodedLine sources maxLen aliasKeys dict line line
  | encoded (id : KeyId) (slot : CompactLogValue) (text : Bytes) (vid : EnumValueId)
      (picked : encodedKey sources maxLen line aliasKeys = some id)
        (found : line.findCompact id = some slot)
      (peeked : line.peekStringView sources slot = some text) (given : dict.find text = some vid) :
      EncodedLine sources maxLen aliasKeys dict line (line.setCompact id (.dictRef vid))

/-- Ids stay good when the dictionary grows. -/
theorem EncodedLine.grows {sources : List LineSource} {maxLen : Nat} {aliasKeys : List KeyId}
    {dict grown : EnumDictionary} {line later : LogLine}
    (encoded : EncodedLine sources maxLen aliasKeys dict line later) (grows : dict.Grows grown) :
    EncodedLine sources maxLen aliasKeys grown line later := by
  cases encoded with
  | kept => exact .kept
  | encoded id slot text vid picked found peeked given =>
    exact .encoded id slot text vid picked found peeked (Interner.Grows.find grows given)

/-- The first dictionary, longer by texts of the lines. -/
structure FedBy (sources : List LineSource) (lines : List LogLine) (old new : EnumDictionary) :
    Prop where
  grows : old.Grows new
  texts : ∀ text ∈ new.values.names, text ∈ old.values.names ∨
    ∃ line ∈ lines, ∃ id slot, line.findCompact id = some slot ∧
      line.peekStringView sources slot = some text

variable (sources : List LineSource) (maxLen : Nat)

/-- Encoding a row encodes at most the slot under the key that the encoder looks at, with an id of
the dictionary afterwards. -/
theorem encodeRow_encoded {aliasKeys : List KeyId} (dict : EnumDictionary) (line : LogLine)
    (keys : List KeyId) (rest_ : encodedKey sources maxLen line aliasKeys =
    encodedKey sources maxLen line keys)
    (sawLong sawWrongType : Bool) :
    EncodedLine sources maxLen aliasKeys
      (encodeRow sources maxLen dict line keys sawLong sawWrongType).2.1
        line (encodeRow sources maxLen dict line keys sawLong sawWrongType).1 ∧
      FedBy sources [line] dict
        (encodeRow sources maxLen dict line keys sawLong sawWrongType).2.1 := by
  have unfed : FedBy sources [line] dict dict := ⟨.refl dict, fun _ held => .inl held⟩
  -- The walk follows the keys; every branch but the insertion leaves row and dictionary alone.
  induction keys generalizing sawLong sawWrongType with
  | nil => exact ⟨.kept, unfed⟩
  | cons id rest ih =>
    conv_rhs at rest_ => unfold encodedKey
    unfold encodeRow
    split
    · rename_i absent
      simp only [absent] at rest_
      exact ih rest_ sawLong sawWrongType
    · rename_i slot found
      simp only [found] at rest_
      split
      · exact ⟨.kept, unfed⟩
      · rename_i raw
        rw [if_neg raw] at rest_
        split
        · rename_i noText
          simp only [noText] at rest_
          exact ih rest_ sawLong true
        · rename_i text peeked
          simp only [peeked] at rest_
          split
          · rename_i long
            rw [if_pos long] at rest_
            exact ih rest_ true sawWrongType
          · rename_i fits
            rw [if_neg fits] at rest_
            have fed : FedBy sources [line] dict (dict.insert text).1 := by
              refine ⟨dict.insert_grows text, fun other held => ?_⟩
              refine (EnumDictionary.mem_insert held).imp_right ?_
              rintro rfl
              exact ⟨line, List.mem_singleton_self line, id, slot, found, peeked⟩
            split
            · rename_i grown inserted
              rw [inserted] at fed
              exact ⟨.kept, fed⟩
            · rename_i grown vid inserted
              have taken : (dict.insert text).2 = some vid := by rw [inserted]
              have given := EnumDictionary.find_of_insert taken
              rw [inserted] at fed given
              exact ⟨.encoded id slot text vid rest_ found peeked given, fed⟩

/-- Encoding rows encodes each of them, with ids of the dictionary in the end. -/
theorem encodeRows_encoded (aliasKeys : List KeyId) (dict : EnumDictionary)
    (health : EnumColumnHealth) (lines : List LogLine) :
    List.Forall₂
        (EncodedLine sources maxLen aliasKeys
          (encodeRows sources maxLen aliasKeys dict health lines).dict)
        lines (encodeRows sources maxLen aliasKeys dict health lines).lines ∧
      FedBy sources lines dict (encodeRows sources maxLen aliasKeys dict health lines).dict := by
  induction lines generalizing dict health with
  | nil => exact ⟨.nil, .refl dict, fun _ held => .inl held⟩
  | cons line rest ih =>
    -- One row is encoded, and the dictionary that it leaves holds for all rows behind it.
    obtain ⟨first, fed⟩ := encodeRow_encoded sources maxLen dict line aliasKeys rfl false false
    unfold encodeRows
    split
    · rename_i later grown done
      rw [done] at first fed
      -- The row overflows the dictionary, so the rest stays as it is.
      refine ⟨.cons first (List.forall₂_same.mpr fun _ _ => .kept), fed.grows, fun text held => ?_⟩
      refine (fed.texts text held).imp_right ?_
      rintro ⟨other, member, rest_⟩
      exact ⟨other, List.mem_cons.mpr (.inl (List.mem_singleton.mp member)), rest_⟩
    · rename_i later grown outcome _ done
      rw [done] at first fed
      obtain ⟨others, more⟩ := ih grown (health.record outcome)
      refine ⟨.cons (first.grows more.grows) others, fed.grows.trans more.grows,
        fun text held => ?_⟩
      -- A text of the final dictionary was there, came with this row, or with a later one.
      rcases more.texts text held with earlier | ⟨other, member, rest_⟩
      · refine (fed.texts text earlier).imp_right ?_
        rintro ⟨other, member, rest_⟩
        exact ⟨other, List.mem_cons.mpr (.inl (List.mem_singleton.mp member)), rest_⟩
      · exact .inr ⟨other, List.mem_cons_of_mem line member, rest_⟩

end Encoding

section Materialising

/-- A resolved id has a 32-bit length if all values of the dictionary do. -/
theorem EnumDictionary.resolve_short {dict : EnumDictionary}
    (short : ∀ text ∈ dict.values.names, text.length < 2 ^ 32) (vid : EnumValueId) :
    (dict.resolve vid).length < 2 ^ 32 := by
  unfold resolve
  cases held : dict.values.get vid with
  | none => simp
  | some text => exact short text (List.mem_of_getElem? held)

/-- A line after its ids under some keys became bytes of its source. -/
structure Demoted (dict : Option EnumDictionary) (keyIds : List KeyId) (sources : List LineSource)
    (line later : LogLine) : Prop where
  source : later.source = line.source
  lineId : later.lineId = line.lineId
  readable : later.Readable sources
  slots : ∀ id,
    (later.findCompact id = line.findCompact id ∧
      ∀ vid, line.findCompact id = some (.dictRef vid) → id ∉ keyIds) ∨
    ∃ vid slot, id ∈ keyIds ∧ line.findCompact id = some (.dictRef vid) ∧
      later.findCompact id = some slot ∧ slot.isDictRef = false ∧
      ∀ registry, later.getValue ⟨sources, registry⟩ id =
        .string ((dict.map (·.resolve vid)).getD [])

/-- Demoting by more keys, into longer sources. -/
theorem Demoted.trans {dict : Option EnumDictionary} {keyIds more : List KeyId}
    {sources grown : List LineSource} {line middle later : LogLine}
    (first : Demoted dict keyIds sources line middle)
    (second : Demoted dict more grown middle later) (extended : SourcesExtend sources grown) :
    Demoted dict (keyIds ++ more) grown line later where
  source := second.source.trans first.source
  lineId := second.lineId.trans first.lineId
  readable := second.readable
  slots id := by
    rcases first.slots id with ⟨same, outside⟩ | ⟨vid, slot, member, was, now, raw, reads⟩
    · rcases second.slots id with ⟨same', outside'⟩ | ⟨vid, slot, member, was, now, raw, reads⟩
      · refine .inl ⟨same'.trans same, fun vid found listed => ?_⟩
        rcases List.mem_append.mp listed with inFirst | inMore
        · exact outside vid found inFirst
        · exact outside' vid (same.trans found) inMore
      · exact .inr ⟨vid, slot, List.mem_append_right _ member, same.symm.trans was, now, raw, reads⟩
    · -- A slot that the first keys made bytes is left alone by the others.
      rcases second.slots id with ⟨same', -⟩ | ⟨vid', slot', -, was', -⟩
      · refine .inr ⟨vid, slot, List.mem_append_left _ member, was, same'.trans now, raw, ?_⟩
        intro registry
        rw [← reads registry]
        refine LogLine.getValue_grown first.readable extended second.source second.lineId same' ?_
        intro vid' found
        rw [now] at found
        rw [Option.some.inj found] at raw
        contradiction
      · rw [now] at was'
        rw [Option.some.inj was'] at raw
        contradiction

/-- A line whose sources grow is demoted by no keys. -/
theorem Demoted.of_extends {dict : Option EnumDictionary} {sources grown : List LineSource}
    {line : LogLine} (readable : line.Readable sources) (extended : SourcesExtend sources grown) :
    Demoted dict [] grown line line :=
  ⟨rfl, rfl, (readable.extends extended).1, fun _ => .inl ⟨rfl, fun _ _ => List.not_mem_nil⟩⟩

/-- An id that is left in a demoted row was there before, under none of the keys. -/
theorem Demoted.left {dict : Option EnumDictionary} {keyIds : List KeyId}
    {sources : List LineSource}
    {line later : LogLine} (demoted : Demoted dict keyIds sources line later) {id : KeyId}
    {vid : EnumValueId}
    (slot : later.findCompact id = some (.dictRef vid)) :
    line.findCompact id = some (.dictRef vid) ∧ id ∉ keyIds := by
  rcases demoted.slots id with ⟨same, outside⟩ | ⟨_, now, -, -, present, raw, -⟩
  · exact ⟨same.symm.trans slot, outside vid (same.symm.trans slot)⟩
  · -- A slot that became bytes holds no id.
    rw [slot] at present
    rw [← Option.some.inj present] at raw
    contradiction

variable (dict : Option EnumDictionary)

/-- One slot of a readable line is turned back, and the line reads the bytes from its source. -/
theorem demoteSlot_demoted (short : ∀ held, dict = some held → ∀ text ∈ held.values.names,
      text.length < 2 ^ 32) (id : KeyId) {sources : List LineSource} {line : LogLine}
    (readable : line.Readable sources) :
    ∃ grown later, demoteSlot dict id sources line = some (grown, later) ∧
      SourcesExtend sources grown ∧ Demoted dict [id] grown line later := by
  -- A text of the dictionary fits the length of a slot.
  have shortText : ∀ vid, ((dict.map (·.resolve vid)).getD []).length < 2 ^ 32 := by
    intro vid
    cases held : dict with
    | none => simp
    | some found => exact EnumDictionary.resolve_short (short found held) vid
  unfold demoteSlot
  split
  · rename_i vid was
    -- The id is read back: its text goes to the arena of the row's own source.
    obtain ⟨source, located, holds, slots⟩ := readable
    simp only [located]
    obtain ⟨grown, offset, appended, longer, reads⟩ :=
      LineSource.appendOwnedBytes_extends holds ((dict.map (·.resolve vid)).getD [])
    simp only [appended]
    have inside := (List.getElem?_eq_some_iff.mp located).1
    have held : (sources.set line.source grown)[line.source]? = some grown :=
      List.getElem?_set_self inside
    have length : (UInt32.ofNat ((dict.map (·.resolve vid)).getD []).length).toNat =
        ((dict.map (·.resolve vid)).getD []).length := UInt32.toNat_ofNat_of_lt' (shortText vid)
    refine ⟨_, _, rfl, .set located longer, rfl, rfl, ⟨grown, held, longer.holds _ holds, ?_⟩, ?_⟩
    · -- The new slot points at the text, and every other one reads what it read.
      intro other slot present
      rw [LogLine.findCompact_setCompact] at present
      split at present
      · rw [← Option.some.inj present]
        show (grown.resolveOwnedBytes _ _ _).length = _
        rw [length]
        exact congrArg List.length reads
      · exact ((slots other slot present).extends holds longer).1
    · -- Under the key the text is shown; under any other key nothing has changed.
      intro other
      by_cases same : other = id
      · subst same
        refine .inr ⟨vid, .ownedString offset
          (UInt32.ofNat ((dict.map (·.resolve vid)).getD []).length),
          List.mem_singleton_self other, was, ?_, rfl, ?_⟩
        · rw [LogLine.findCompact_setCompact, if_pos rfl]
        · intro registry
          unfold LogLine.getValue
          rw [LogLine.findCompact_setCompact, if_pos rfl]
          simp only [LogLine.setCompact_source, LogLine.setCompact_lineId, held,
            CompactLogValue.materialise, length, reads]
      · refine .inl ⟨by rw [LogLine.findCompact_setCompact, if_neg same], fun _ _ => ?_⟩
        simpa using same
  · -- A slot without an id stays.
    rename_i raw
    refine ⟨sources, line, rfl, .refl sources, rfl, rfl, readable, fun other => .inl ⟨rfl, ?_⟩⟩
    intro vid found listed
    rw [List.mem_singleton.mp listed] at found
    exact raw vid found

/-- The slots of a readable line under some keys are turned back, key by key. -/
theorem demoteLine_demoted (short : ∀ held, dict = some held → ∀ text ∈ held.values.names,
      text.length < 2 ^ 32) (keyIds : List KeyId) {sources : List LineSource} {line : LogLine}
    (readable : line.Readable sources) :
    ∃ grown later, demoteLine dict keyIds sources line = some (grown, later) ∧
      SourcesExtend sources grown ∧ Demoted dict keyIds grown line later := by
  induction keyIds generalizing sources line with
  -- Key by key; each slot is replaced by its text.
  | nil => exact ⟨sources, line, rfl, .refl sources, .of_extends readable (.refl sources)⟩
  | cons id rest ih =>
    obtain ⟨middle, between, first, extends_, demoted⟩ := demoteSlot_demoted dict short id readable
    obtain ⟨grown, later, others, longer, done⟩ := ih demoted.readable
    refine ⟨grown, later, ?_, extends_.trans longer, demoted.trans done longer⟩
    simp only [demoteLine, first, others]

/-- The slots of all rows are turned back, and every row reads its bytes in the end. -/
theorem demoteLines_demoted (short : ∀ held, dict = some held → ∀ text ∈ held.values.names,
      text.length < 2 ^ 32) (keyIds : List KeyId) {sources : List LineSource} {lines : List LogLine}
    (readable : ∀ line ∈ lines, line.Readable sources) :
    ∃ grown later, demoteLines dict keyIds sources lines = some (grown, later) ∧
      SourcesExtend sources grown ∧ List.Forall₂ (Demoted dict keyIds grown) lines later := by
  induction lines generalizing sources with
  | nil => exact ⟨sources, [], rfl, .refl sources, .nil⟩
  | cons line rest ih =>
    obtain ⟨middle, between, first, extends_, demoted⟩ :=
      demoteLine_demoted dict short keyIds (readable line List.mem_cons_self)
    obtain ⟨grown, later, others, longer, done⟩ := ih fun other member =>
      ((readable other (List.mem_cons_of_mem line member)).extends extends_).1
    refine ⟨grown, between :: later, ?_, extends_.trans longer, .cons ?_ done⟩
    · simp only [demoteLines, first, others]
    · -- The rows behind lengthened the sources once more.
      have settled := demoted.trans (.of_extends demoted.readable longer) longer
      rwa [List.append_nil] at settled

end Materialising

end Loglib
