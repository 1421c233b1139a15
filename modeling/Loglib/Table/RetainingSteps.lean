import Loglib.Basic.Runs
import Loglib.Table.Operations
import Loglib.Table.ValueRetention

/-! Each piece of the dictionary work keeps the values of a healthy table where it stays with one
dictionary. -/

namespace Loglib

/-- Related lists have related items at each position. -/
theorem forall₂_getElem? {α β : Type*} {R : α → β → Prop} {first : List α} {second : List β}
    (related : List.Forall₂ R first second) {position : Nat} {left : α}
    (held : first[position]? = some left) :
    ∃ right, second[position]? = some right ∧ R left right := by
  induction related generalizing position with
  | nil => simp at held
  | cons head _ ih =>
    cases position with
    | zero => exact ⟨_, rfl, by simpa using (Option.some.inj held) ▸ head⟩
    | succ position => exact ih held

/-- An item of the second of two related lists has a partner in the first. -/
theorem forall₂_exists_left {α β : Type*} {R : α → β → Prop} {first : List α} {second : List β}
    (related : List.Forall₂ R first second) {right : β} (member : right ∈ second) :
    ∃ left ∈ first, R left right := by
  -- A member of one list has its partner at the same place of the other.
  induction related with
  | nil => simp at member
  | cons head _ ih =>
    rcases List.mem_cons.mp member with rfl | later
    · exact ⟨_, List.mem_cons_self, head⟩
    · obtain ⟨left, inside, related⟩ := ih later
      exact ⟨left, List.mem_cons_of_mem _ inside, related⟩

namespace LogTable

variable {reads : Reads} {table : LogTable}

section Rows

variable {old new : LogTable}

/-- A rewritten row: readable, with ids that resolve, and with its values kept. -/
structure KeptRow (reads : Reads) (old new : LogTable) (line later : LogLine) : Prop where
  readable : later.Readable new.sources
  resolved : ∀ id vid, later.findCompact id = some (.dictRef vid) →
    ∃ dict, new.enumDictionaries.find id = some dict ∧ vid < dict.size
  kept : ∀ id, (line.getValue old.context id).Kept (reads id) (later.getValue new.context id)

/-- Rows rewritten one by one. -/
theorem healthy_of_rows (rows : List.Forall₂ (KeptRow reads old new) old.lines new.lines)
    (short : ∀ id dict, new.enumDictionaries.find id = some dict → ∀ text ∈ dict.values.names,
    text.length < 2 ^ 32) :
    new.Healthy ∧ KeepsValues reads old new := by
  -- Each row of the new table is the row of the old one at the same place.
  refine ⟨⟨fun later listed => ?_, fun later listed => ?_, short⟩, fun row line held => ?_⟩
  · obtain ⟨line, -, kept⟩ := forall₂_exists_left rows listed
    exact kept.readable
  · obtain ⟨line, -, kept⟩ := forall₂_exists_left rows listed
    exact kept.resolved
  · obtain ⟨later, found, kept⟩ := forall₂_getElem? rows held
    exact ⟨later, found, kept.kept⟩

/-- Rows rewritten one by one, each from a row of the table. -/
theorem healthy_of_edits {Edit : LogLine → LogLine → Prop}
    (edits : List.Forall₂ Edit old.lines new.lines)
    (kept : ∀ line ∈ old.lines, ∀ later, Edit line later → KeptRow reads old new line later)
    (short : ∀ id dict, new.enumDictionaries.find id = some dict → ∀ text ∈ dict.values.names,
    text.length < 2 ^ 32) :
    new.Healthy ∧ KeepsValues reads old new := by
  have among := (List.forall₂_and_left old.lines new.lines).mpr ⟨fun _ (member : _ ∈ old.lines) =>
    member, edits⟩
  exact healthy_of_rows (among.imp fun line later both => kept line both.1 later both.2) short

/-- A row whose slot under the id is left alone shows there what it showed, where sources and
dictionaries only grow. -/
theorem Healthy.getValue_grown (healthy : old.Healthy)
    (extended : SourcesExtend old.sources new.sources) {line later : LogLine}
    (member : line ∈ old.lines) (source : later.source = line.source)
    (lineId : later.lineId = line.lineId) {id : KeyId}
    (slot : later.findCompact id = line.findCompact id)
    (finds : ∀ vid dict, line.findCompact id = some (.dictRef vid) →
    old.enumDictionaries.find id = some dict →
      ∃ grown, new.enumDictionaries.find id = some grown ∧ dict.Grows grown) :
    later.getValue new.context id = line.getValue old.context id ∧
      ∀ vid, later.findCompact id = some (.dictRef vid) →
        ∃ dict, new.enumDictionaries.find id = some dict ∧ vid < dict.size := by
  -- A reference of the line resolves before and after, in a dictionary that has only grown.
  have resolves : ∀ vid, line.findCompact id = some (.dictRef vid) → ∃ dict grown,
      old.enumDictionaries.find id = some dict ∧ new.enumDictionaries.find id = some grown ∧
        vid < dict.size ∧ dict.Grows grown := by
    intro vid held
    obtain ⟨dict, found, bound⟩ := healthy.resolved line member id vid held
    obtain ⟨grown, after, grows⟩ := finds vid dict held found
    exact ⟨dict, grown, found, after, bound, grows⟩
  refine ⟨LogLine.getValue_grown (healthy.readable line member) extended source lineId slot
    resolves, fun vid held => ?_⟩
  obtain ⟨dict, grown, -, after, bound, grows⟩ := resolves vid (slot ▸ held)
  exact ⟨grown, after, bound.trans_le grows.size_le⟩

/-- Sources and dictionaries that only grow keep the values of all rows. -/
theorem Healthy.of_grown (healthy : old.Healthy) (lines : new.lines = old.lines)
    (extended : SourcesExtend old.sources new.sources)
    (finds : ∀ id dict, old.enumDictionaries.find id = some dict →
      ∃ grown, new.enumDictionaries.find id = some grown ∧ dict.Grows grown)
    (short : ∀ id dict, new.enumDictionaries.find id = some dict → ∀ text ∈ dict.values.names,
    text.length < 2 ^ 32) :
    new.Healthy ∧ KeepsValues reads old new := by
  refine healthy_of_rows ?_ short
  rw [lines]
  -- The rows are the same, and read the same from what has grown.
  refine List.forall₂_same.mpr fun line member => ?_
  have same := fun id => healthy.getValue_grown extended member
    rfl rfl (Eq.refl (line.findCompact id)) fun _ dict _ => finds id dict
  exact ⟨((healthy.readable line member).extends extended).1, fun id => (same id).2, fun id =>
    (same id).1 ▸ .same _⟩

end Rows

/-- The operation goes through, and it leaves a healthy table with all its values. -/
def Retains (reads : Reads) (table : LogTable) (result : Option LogTable) : Prop :=
  table.Healthy → ∃ next, result = some next ∧ next.Healthy ∧ KeepsValues reads table next

namespace Retains

/-- One operation after another. -/
theorem trans {next : LogTable} {result : Option LogTable} (first : Retains reads table (some next))
    (second : Retains reads next result) : Retains reads table result := by
  intro healthy
  obtain ⟨reached, same, kept, values⟩ := first healthy
  obtain rfl := Option.some.inj same
  obtain ⟨last, done, final, more⟩ := second kept
  exact ⟨last, done, final, values.trans more⟩

/-- An operation whose result is handed on. -/
theorem bind {result : Option LogTable} {rest : LogTable → Option LogTable}
    (first : Retains reads table result)
    (second : ∀ next, result = some next → Retains reads next (rest next)) :
    Retains reads table (result.bind rest) := by
  intro healthy
  obtain ⟨reached, same, kept, values⟩ := first healthy
  obtain ⟨last, done, final, more⟩ := second reached same kept
  exact ⟨last, by rw [same]; exact done, final, values.trans more⟩

/-- More may be read from the text. -/
theorem mono {more : Reads} {result : Option LogTable} (retains : Retains reads table result)
    (larger : ∀ id text microseconds, reads id text microseconds → more id text microseconds) :
    Retains more table result := by
  intro healthy
  obtain ⟨next, done, kept, values⟩ := retains healthy
  exact ⟨next, done, kept, values.mono larger⟩

/-- What does not touch rows, dictionaries and sources. -/
theorem of_same {next : LogTable} (lines : next.lines = table.lines)
    (registry : next.enumDictionaries = table.enumDictionaries)
    (sources : next.sources = table.sources) : Retains reads table (some next) := by
  -- The same table, as far as values go.
  intro healthy
  refine ⟨next, rfl, healthy.of_grown lines ?_ ?_ ?_⟩
  · rw [sources]
  · intro id dict found
    exact ⟨dict, registry ▸ found, .refl dict⟩
  · rw [registry]
    exact healthy.short

/-- Nothing. -/
theorem refl (table : LogTable) : Retains reads table (some table) := of_same rfl rfl rfl

/-- Steps that retain values where they meet a condition make a run that does where each
step meets it. -/
theorem cleanRun {σ ι : Type*} (tableOf : σ → LogTable) {step : σ → ι → Option σ}
    {Clean : σ → ι → Prop}
    (retains : ∀ state item, Clean state item →
    Retains reads (tableOf state) ((step state item).map tableOf))
    {items : List ι} {state : σ} (clean : CleanRun step Clean state items) :
    Retains reads (tableOf state) ((items.foldlM step state).map tableOf) := by
  -- One step, and then the rest of the run; a run that fails retains nothing to be shown.
  induction items generalizing state with
  | nil => exact refl _
  | cons item rest ih =>
    have first := retains state item clean.1
    rw [List.foldlM_cons]
    cases done : step state item with
    | none =>
      rw [done] at first
      exact first
    | some next =>
      rw [done] at first
      exact first.trans (ih (clean.2 next done))

/-- Total steps that retain values make a fold that does. -/
theorem foldl {ι : Type*} {step : LogTable → ι → LogTable}
    (retains : ∀ table item, Retains reads table (some (step table item))) (items : List ι)
    (table : LogTable) :
    Retains reads table (some (items.foldl step table)) := by
  induction items generalizing table with
  | nil => exact refl table
  | cons item rest ih => exact (retains table item).trans (ih _)

end Retains

section Encoding

/-- The encoder gives ids under keys of one dictionary only: each row of the range that holds text
to encode holds it under a key that maps, once the first key has a dictionary, to the dictionary of
the first key. -/
def SharesDictionary (table : LogTable) (aliasKeys : List KeyId) (rowBegin : Nat) : Prop :=
  ∀ canonical ∈ aliasKeys.head?, ∀ line ∈ table.lines.drop rowBegin,
    ∀ id ∈ encodedKey table.sources table.enumValueMaxLen line aliasKeys,
      (table.enumDictionaries.getOrInsert canonical table.enumValueCap).index id =
        (table.enumDictionaries.getOrInsert canonical table.enumValueCap).index canonical

/-- The encoder looks for text under the keys it is given. -/
theorem mem_of_encodedKey {sources : List LineSource} {maxLen : Nat} {line : LogLine}
    {keys : List KeyId} {id : KeyId}
    (picked : encodedKey sources maxLen line keys = some id) : id ∈ keys := by
  -- The search goes through the keys in order and stops at the first it can encode.
  induction keys with
  | nil => cases picked
  | cons key rest ih =>
    unfold encodedKey at picked
    split at picked
    · exact List.mem_cons_of_mem key (ih picked)
    · split at picked
      · cases picked
      · split at picked
        · exact List.mem_cons_of_mem key (ih picked)
        · split at picked
          · exact List.mem_cons_of_mem key (ih picked)
          · exact List.mem_cons.mpr (.inl (Option.some.inj picked).symm)

/-- One key shares its dictionary with itself. -/
theorem sharesDictionary_of_lone {aliasKeys : List KeyId} {key : KeyId}
    (lone : ∀ id ∈ aliasKeys, id = key) (rowBegin : Nat) :
    table.SharesDictionary aliasKeys rowBegin := by
  intro canonical first line _ id picked
  rw [lone id (mem_of_encodedKey picked), lone canonical (List.mem_of_mem_head? first)]

/-- A seeded key finds a dictionary: the old one, or a fresh one. -/
theorem find_seeded (registry : EnumDictionaryRegistry) (canonical : KeyId) (cap : Nat) :
    ∃ dict, (registry.getOrInsert canonical cap).find canonical = some dict ∧
      (registry.find canonical = some dict ∨ dict = .ofCap cap) := by
  -- The dictionary was there, or is a fresh one.
  rw [EnumDictionaryRegistry.find_getOrInsert]
  split
  · exact ⟨_, rfl, .inr rfl⟩
  · rename_i indexed
    cases found : registry.find canonical with
    | some dict => exact ⟨dict, rfl, .inl rfl⟩
    | none => exact absurd ⟨rfl, EnumDictionaryRegistry.find_eq_none_iff.mp found⟩ indexed

/-- Seeding a key and filling its dictionary lengthens what every key finds. -/
theorem find_filled {registry : EnumDictionaryRegistry} {canonical : KeyId} {cap : Nat}
    {dict filled : EnumDictionary}
    (seeded : (registry.getOrInsert canonical cap).find canonical = some dict)
    (grows : dict.Grows filled) {id : KeyId} {old : EnumDictionary}
    (found : registry.find id = some old) :
    ∃ grown, ((registry.getOrInsert canonical cap).write canonical filled).find id = some grown ∧
      old.Grows grown := by
  have kept : (registry.getOrInsert canonical cap).find id = some old := by
    rw [EnumDictionaryRegistry.find_getOrInsert]
    split
    · rename_i fresh
      have absent := EnumDictionaryRegistry.find_eq_none_iff.mpr fresh.2
      rw [← fresh.1, found] at absent
      contradiction
    · exact found
  rw [EnumDictionaryRegistry.find_write]
  split
  · rename_i shared
    -- The key shares the pointer, so it found the dictionary that was filled.
    have same := EnumDictionaryRegistry.find_eq_of_index_eq shared
    rw [kept, seeded] at same
    rw [kept, Option.some.inj same]
    exact ⟨filled, rfl, grows⟩
  · exact ⟨old, kept, .refl old⟩

/-- An encoded row keeps its values where the dictionary is that of its key. -/
theorem keptRow_of_encoded {old new : LogTable} {aliasKeys : List KeyId} {maxLen : Nat}
    {dict : EnumDictionary}
    (healthy : old.Healthy) (sources : new.sources = old.sources)
    (finds : ∀ id held, old.enumDictionaries.find id = some held →
      ∃ grown, new.enumDictionaries.find id = some grown ∧ held.Grows grown)
    {line later : LogLine} (member : line ∈ old.lines)
    (encodes : EncodedLine old.sources maxLen aliasKeys dict line later)
    (shared : ∀ id ∈ encodedKey old.sources maxLen line aliasKeys,
    new.enumDictionaries.find id = some dict) :
    KeptRow reads old new line later := by
  have whole := healthy.readable line member
  have extended : SourcesExtend old.sources new.sources := sources ▸ .refl _
  have unchanged := fun (other : LogLine) (id : KeyId) (source : other.source = line.source)
    (lineId : other.lineId = line.lineId) (slot : other.findCompact id = line.findCompact id) =>
      healthy.getValue_grown extended member source lineId slot fun _ held _ => finds id held
  cases encodes with
  | kept =>
    exact ⟨sources ▸ whole, fun id => (unchanged line id rfl rfl rfl).2, fun id =>
      (unchanged line id rfl rfl rfl).1 ▸ .same _⟩
  | encoded key slot text vid picked found peeked given =>
    have own := shared key picked
    have slotAt (id : KeyId) := LogLine.findCompact_setCompact line key id (.dictRef vid)
    have others (id : KeyId) (other : id ≠ key) :=
      unchanged (line.setCompact key (.dictRef vid)) id rfl rfl
      ((slotAt id).trans (if_neg other))
    obtain ⟨source, located, held, slots⟩ := whole
    refine ⟨⟨source, sources ▸ located, held, fun id other present => ?_⟩, fun id value slot => ?_,
      fun id => ?_⟩
    · rw [slotAt] at present
      split at present
      · rw [← Option.some.inj present]
        trivial
      · exact slots id other present
    · by_cases same : id = key
      · -- The encoder's own id lies inside the dictionary it came from.
        rw [slotAt, if_pos same] at slot
        obtain rfl : vid = value := by simpa using slot
        exact ⟨dict, same ▸ own, EnumDictionary.find_lt_size given⟩
      · exact (others id same).2 value slot
    · by_cases same : id = key
      · -- The id resolves to the text that the slot showed.
        subst same
        have before : line.getValue old.context id = .string text :=
          (LogLine.Readable.peeked ⟨source, located, held, slots⟩ found peeked).2
            old.enumDictionaries
        have after : (line.setCompact id (.dictRef vid)).getValue new.context id =
            .string text := by
          unfold LogLine.getValue
          rw [slotAt, if_pos rfl]
          have located : new.sources[line.source]? = some source := by rw [sources, located]
          simp [CompactLogValue.materialise, LogTable.context, located, own,
            EnumDictionary.resolve_of_find given]
        rw [before, after]
        exact .same _
      · exact (others id same).1 ▸ .same _

/-- Encoding keeps all values where it stays with one dictionary. -/
theorem encodeColumnRange_retains {aliasKeys : List KeyId} {rowBegin : Nat}
    (shares : table.SharesDictionary aliasKeys rowBegin)
    (healthKey : KeyId) : Retains reads table
    (some (table.encodeColumnRange aliasKeys rowBegin healthKey).1) := by
  intro healthy
  cases aliasKeys with
  | nil => exact Retains.refl table healthy
  | cons canonical aliases =>
    obtain ⟨dict, seeds, origin⟩ := find_seeded table.enumDictionaries canonical table.enumValueCap
    obtain ⟨rows, fed⟩ := encodeRows_encoded table.sources table.enumValueMaxLen
      (canonical :: aliases) dict
      ((table.enumColumnHealth healthKey).getD .empty) (table.lines.drop rowBegin)
    generalize filled : encodeRows table.sources table.enumValueMaxLen (canonical :: aliases) dict
      ((table.enumColumnHealth healthKey).getD .empty) (table.lines.drop rowBegin) =
        encoded at rows fed
    have registry : (table.encodeColumnRange (canonical :: aliases) rowBegin
      healthKey).1.enumDictionaries =
        (table.enumDictionaries.getOrInsert canonical table.enumValueCap).write canonical
          encoded.dict := by
      simp only [encodeColumnRange, seeds, Option.getD_some, filled]
    have lines : (table.encodeColumnRange (canonical :: aliases) rowBegin healthKey).1.lines =
        table.lines.take rowBegin ++ encoded.lines := by
      simp only [encodeColumnRange, seeds, Option.getD_some, filled]
    have sources : (table.encodeColumnRange (canonical :: aliases) rowBegin healthKey).1.sources =
        table.sources := rfl
    generalize (table.encodeColumnRange (canonical :: aliases) rowBegin healthKey).1 =
      next at registry lines sources ⊢
    have finds : ∀ id held, table.enumDictionaries.find id = some held →
        ∃ grown, next.enumDictionaries.find id = some grown ∧ held.Grows grown := by
      rw [registry]
      exact fun id held found => find_filled seeds fed.grows found
    refine ⟨_, rfl, healthy_of_rows ?_ ?_⟩
    · -- The rows before the range stay as they are, and those of the range are encoded.
      rw [lines]
      conv_lhs => rw [← List.take_append_drop rowBegin table.lines]
      refine List.rel_append ?_ ?_
      · refine List.forall₂_same.mpr fun line inFront => ?_
        have member := List.mem_of_mem_take inFront
        have same := fun id => @Healthy.getValue_grown table next healthy (sources ▸ .refl _) line
          line member rfl rfl
          id rfl fun _ held _ => finds id held
        exact ⟨sources ▸ healthy.readable line member, fun id => (same id).2, fun id =>
          (same id).1 ▸ .same _⟩
      · have among := (List.forall₂_and_left (table.lines.drop rowBegin) _).mpr ⟨fun _ member =>
          member, rows⟩
        refine among.imp fun line later both => ?_
        refine keptRow_of_encoded healthy sources finds (List.mem_of_mem_drop both.1) both.2
          fun id picked => ?_
        have pointer := shares canonical rfl line both.1 id picked
        rw [registry, EnumDictionaryRegistry.find_write, if_pos pointer,
          EnumDictionaryRegistry.find_eq_of_index_eq pointer, seeds]
        rfl
    · -- New dictionary values are texts of readable rows, and a fresh dictionary has none.
      have shortSeeded : ∀ id held,
        (table.enumDictionaries.getOrInsert canonical table.enumValueCap).find id = some held →
          ∀ text ∈ held.values.names, text.length < 2 ^ 32 := by
        intro id held found
        rw [EnumDictionaryRegistry.find_getOrInsert] at found
        split at found
        · rw [← Option.some.inj found]
          simp [EnumDictionary.ofCap, Interner.empty]
        · exact healthy.short id held found
      rw [registry]
      intro id held found text listed
      rw [EnumDictionaryRegistry.find_write] at found
      split at found
      · obtain ⟨earlier, -, same⟩ := Option.map_eq_some_iff.mp found
        rw [← same] at listed
        rcases fed.texts text listed with old | ⟨line, member, key, slot, located, peeked⟩
        · exact shortSeeded canonical dict seeds text old
        · exact ((healthy.readable line (List.mem_of_mem_drop member)).peeked located peeked).1
      · exact shortSeeded id held found text listed

end Encoding

section Demotion

/-- Changing a type is none of the rows' business. -/
theorem setColumnType_retains (table : LogTable) (columnIndex : Nat) (type : ColumnType) :
    Retains reads table (some (table.setColumnType columnIndex type)) := .of_same rfl rfl rfl

/-- A demotion drops its own dictionary only: every row that holds an id under a
registered key of the column finds the dictionary of the first one there, and no other id
is of the dictionary that goes. -/
def OwnsDictionary (table : LogTable) (columnIndex : Nat) : Prop :=
  ∀ column, table.columns[columnIndex]? = some column → column.type.isEnumLike = true →
    ∀ canonical ∈ (table.registeredKeys column).head?, ∀ line ∈ table.lines, ∀ id vid,
      line.findCompact id = some (.dictRef vid) →
        (id ∈ table.registeredKeys column →
          table.enumDictionaries.find id = table.enumDictionaries.find canonical) ∧
        (id ∉ table.registeredKeys column → table.enumDictionaries.index id ≠ some canonical)

/-- A demoted row keeps its values where its ids are of the dictionary that goes, or of others. -/
theorem keptRow_of_demoted {new : LogTable} {keyIds : List KeyId} {canonical : KeyId}
    (healthy : table.Healthy)
    (extended : SourcesExtend table.sources new.sources)
    (erased : new.enumDictionaries = table.enumDictionaries.erase canonical) {line later : LogLine}
    (member : line ∈ table.lines)
    (demoted : Demoted (table.enumDictionaries.find canonical) keyIds new.sources line later)
    (owns : ∀ id vid, line.findCompact id = some (.dictRef vid) →
      (id ∈ keyIds → table.enumDictionaries.find id = table.enumDictionaries.find canonical) ∧
      (id ∉ keyIds → table.enumDictionaries.index id ≠ some canonical)) :
    KeptRow reads table new line later := by
  -- A slot that stays an id points at another dictionary.
  have stays : ∀ id, later.findCompact id = line.findCompact id →
      (∀ vid, line.findCompact id = some (.dictRef vid) → id ∉ keyIds) → _ := fun id same outside =>
    healthy.getValue_grown extended member demoted.source demoted.lineId same
      fun vid dict slot found => by
      refine ⟨dict, ?_, .refl dict⟩
      rw [erased, EnumDictionaryRegistry.find_erase,
        if_neg ((owns id vid slot).2 (outside vid slot))]
      exact found
  refine ⟨demoted.readable, fun id vid slot => ?_, fun id => ?_⟩
  · obtain ⟨was, outside⟩ := demoted.left slot
    exact (stays id (slot.trans was.symm) fun _ _ => outside).2 vid slot
  · rcases demoted.slots id with ⟨same, outside⟩ | ⟨vid, slot, inKeys, was, -, -, shows⟩
    · exact (stays id same outside).1 ▸ .same _
    · -- A slot that became bytes shows the text of its id.
      obtain ⟨dict, found, -⟩ := healthy.resolved line member id vid was
      obtain ⟨source, located, -⟩ := healthy.readable line member
      have before : line.getValue table.context id = .string (dict.resolve vid) := by
        unfold LogLine.getValue
        rw [was]
        simp [CompactLogValue.materialise, LogTable.context, located, found]
      have after : later.getValue new.context id = .string (dict.resolve vid) := by
        have read := shows new.enumDictionaries
        rw [← (owns id vid was).1 inKeys, found] at read
        exact read
      rw [before, after]
      exact .same _

/-- Demoting a column goes through, and keeps all values where it drops its own dictionary only. -/
theorem demoteColumnFromEnum_retains {columnIndex : Nat} (owns : table.OwnsDictionary columnIndex)
    (recordForBatch : Bool) :
    Retains reads table (table.demoteColumnFromEnum columnIndex recordForBatch) := by
  unfold demoteColumnFromEnum
  -- A column without ids, or without a registered key, only changes its type.
  split
  · exact .refl table
  · rename_i column inside
    split
    · exact .refl table
    · rename_i enumLike
      split
      · exact setColumnType_retains table columnIndex .string
      · rename_i canonical aliases ids
        intro healthy
        -- The ids of all keys are read back in the front key's dictionary, which has short texts.
        obtain ⟨sources, lines, demotes, extended, rows⟩ :=
          demoteLines_demoted (table.enumDictionaries.find canonical)
          (fun held found => healthy.short canonical held found) (canonical :: aliases)
            healthy.readable
        simp only [demotes]
        refine ⟨_, rfl, healthy_of_edits rows (fun line member later demoted =>
          ?_) fun id dict found => ?_⟩
        · -- By the condition the other keys of the row share this dictionary.
          refine keptRow_of_demoted healthy extended rfl member demoted fun id vid slot => ?_
          have own := owns column inside (by simpa using enumLike) canonical (by rw [ids]; rfl) line
            member id vid slot
          rwa [ids] at own
        · -- One dictionary less, and the others keep their texts.
          have found : (table.enumDictionaries.erase canonical).find id = some dict := found
          rw [EnumDictionaryRegistry.find_erase] at found
          split at found
          · cases found
          · exact healthy.short id dict found

end Demotion

section Wiring

/-- Wiring keys keeps all values: no key loses the dictionary it finds. -/
theorem wireColumnKeys_retains (table : LogTable) (names : List Bytes) :
    Retains reads table (some (table.wireColumnKeys names).1) := by
  -- A key that finds a dictionary is indexed, and neither a seed nor an alias touches it.
  have grown : ∀ (start next : LogTable), next.lines = start.lines → next.sources = start.sources →
      (∀ id dict, start.enumDictionaries.find id = some dict →
        next.enumDictionaries.find id = some dict) →
      (∀ id dict, next.enumDictionaries.find id = some dict →
        dict.values.names = [] ∨ ∃ other, start.enumDictionaries.find other = some dict) →
      Retains reads start (some next) := by
    intro start next lines sources finds origin healthy
    refine ⟨next, rfl, healthy.of_grown lines (sources ▸ .refl _) (fun id dict found =>
      ⟨dict, finds id dict found, .refl dict⟩) ?_⟩
    intro id dict found text listed
    rcases origin id dict found with none_ | ⟨other, held⟩
    · rw [none_] at listed
      cases listed
    · exact healthy.short other dict held text listed
  have aliased : ∀ (canonical : KeyId) (start : LogTable) name,
      Retains reads start (some (wireAlias canonical start name)) := by
    intro canonical start name
    refine grown start _ rfl rfl (fun id dict found => ?_) fun id dict found => ?_
    · show (start.enumDictionaries.aliasTo canonical (start.keys.getOrInsert name).2).1.find id =
        some dict
      rw [EnumDictionaryRegistry.find_aliasTo, if_neg]
      · exact found
      · rintro ⟨same, absent, -⟩
        rw [same, EnumDictionaryRegistry.find_eq_none_iff.mpr absent] at found
        cases found
    · have found : (start.enumDictionaries.aliasTo canonical (start.keys.getOrInsert name).2).1.find
          id = some dict := found
      rw [EnumDictionaryRegistry.find_aliasTo] at found
      split at found
      · exact .inr ⟨canonical, found⟩
      · exact .inr ⟨id, found⟩
  cases names with
  | nil => exact .refl table
  | cons name rest =>
    have seeded : Retains reads table (some { table with
        keys := (table.keys.getOrInsert name).1
        enumDictionaries := table.enumDictionaries.getOrInsert (table.keys.getOrInsert name).2
          table.enumValueCap }) := by
      refine grown table _ rfl rfl (fun id dict found => ?_) fun id dict found => ?_
      · show (table.enumDictionaries.getOrInsert (table.keys.getOrInsert name).2
          table.enumValueCap).find id = some dict
        rw [EnumDictionaryRegistry.find_getOrInsert, if_neg]
        · exact found
        · rintro ⟨same, absent⟩
          rw [same, EnumDictionaryRegistry.find_eq_none_iff.mpr absent] at found
          cases found
      · have found : (table.enumDictionaries.getOrInsert (table.keys.getOrInsert name).2
          table.enumValueCap).find id =
          some dict := found
        rw [EnumDictionaryRegistry.find_getOrInsert] at found
        split at found
        · rw [← Option.some.inj found]
          exact .inl rfl
        · exact .inr ⟨id, found⟩
    exact seeded.trans (Retains.foldl (aliased _) rest _)

/-- Wiring keys leaves the columns alone. -/
theorem wireColumnKeys_columns (table : LogTable) (names : List Bytes) :
    (table.wireColumnKeys names).1.columns = table.columns := by
  cases names with
  | nil => rfl
  | cons name rest =>
    exact foldl_invariant (fun (wired : LogTable) => wired.columns = table.columns)
      (fun _ _ _ same => same) rfl

/-- Ranking levels is none of the rows' business. -/
theorem refreshLevelRankCache_retains (table : LogTable) (columnIndex : Nat) :
    Retains reads table (some (table.refreshLevelRankCache columnIndex)) := by
  unfold refreshLevelRankCache
  repeat' split
  all_goals exact .of_same rfl rfl rfl

/-- Neither is a promotion to a level column. -/
theorem maybePromoteToLevel_retains (table : LogTable) (columnIndex : Nat) :
    Retains reads table (some (table.maybePromoteToLevel columnIndex)) := by
  -- Nothing, or a new type and the ranks that go with it.
  rcases table.maybePromoteToLevel_cases columnIndex with same | ⟨column, canonical, -, -, -,
    -, -, same⟩
  · rw [same]
    exact .refl table
  · rw [same]
    exact (setColumnType_retains table columnIndex .level).trans
      ((refreshLevelRankCache_retains _ columnIndex).trans (.of_same rfl rfl rfl))

end Wiring

end LogTable

end Loglib
