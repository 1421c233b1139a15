import Loglib.App.LogModel
import Loglib.Basic.KeyedList

/-! The signals for enumeration columns that a batch and the end of a stream emit, and the strings
of each level that are remembered for a column that stops being one. -/

namespace Loglib

/-- One `enumColumnsChanged`. -/
structure EnumColumnsChanged where
  reason : EnumColumnsChangeReason
  columnIndex : Nat
deriving DecidableEq, Repr

/-- The raw strings of each level. -/
abbrev LevelStrings := KeyedList LogLevel (List Bytes)

/-- One more string of a level. -/
def LevelStrings.add (strings : LevelStrings) (level : LogLevel) (text : Bytes) : LevelStrings :=
  strings.put level ((strings.find level).getD [] ++ [text])

/-- The strings of a dictionary by their level, those of no known level left out. -/
def levelToRawBytes (ranks : List LogLevel) (dictionary : EnumDictionary) : LevelStrings :=
  (ranks.take dictionary.size).zipIdx.foldl
    (fun strings (level, valueId) =>
      if level = .unknown then strings else strings.add level (dictionary.resolve valueId))
    .empty

namespace LogTable

/-- What is captured for a level column. Any other column has no ranks. -/
def capturedLevels (table : LogTable) (columnIndex : Nat) : LevelStrings :=
  match table.levelRanks columnIndex, (table.resolveEnumColumn columnIndex).2 with
  | some ranks, some dictionary => levelToRawBytes ranks dictionary
  | _, _ => .empty

/-- What a batch remembers of a dictionary column. -/
structure EnumSnapshotEntry where
  kid : KeyId
  columnIndex : Nat
  sizeBefore : Nat
  typeBefore : ColumnType
  levelToRawBytes : LevelStrings

/-- The entry of a column that has a dictionary. -/
def snapshotColumn (table : LogTable) (columnIndex : Nat) (column : Column) :
    Option EnumSnapshotEntry :=
  if column.type.isEnumLike = false then none
  else
    match table.resolveEnumColumn columnIndex with
    | (some kid, some dictionary) =>
      some ⟨kid, columnIndex, dictionary.size, column.type, table.capturedLevels columnIndex⟩
    | _ => none

/-- The snapshot before a batch. -/
def enumSnapshot (table : LogTable) : List EnumSnapshotEntry :=
  table.columns.zipIdx.filterMap fun (column, columnIndex) =>
    table.snapshotColumn columnIndex column

end LogTable

/-- The signals so far, and the strings that are stashed for the columns that lost their levels. -/
structure EnumDiff where
  signals : List EnumColumnsChanged
  lastBatchLevelDemoteMapping : KeyedList Nat LevelStrings

namespace EnumDiff

/-- Nothing emitted, nothing stashed. -/
def empty : EnumDiff := ⟨[], .empty⟩

/-- One signal more. -/
def emit (diff : EnumDiff) (reason : EnumColumnsChangeReason) (columnIndex : Nat) : EnumDiff :=
  { diff with signals := diff.signals ++ [⟨reason, columnIndex⟩] }

/-- Stash the strings of a column, if there are any. -/
def stash (diff : EnumDiff) (columnIndex : Nat) (strings : LevelStrings) : EnumDiff :=
  if strings.entries.isEmpty then diff
  else { diff with
    lastBatchLevelDemoteMapping := diff.lastBatchLevelDemoteMapping.put columnIndex strings }

/-- `LastBatchLevelDemoteMappingFor`. -/
def lastBatchLevelDemoteMappingFor (diff : EnumDiff) (columnIndex : Nat) : Option LevelStrings :=
  diff.lastBatchLevelDemoteMapping.find columnIndex

/-- The column has been demoted already. -/
def demotedThisBatch (diff : EnumDiff) (columnIndex : Nat) : Bool :=
  diff.signals.contains ⟨.demoted, columnIndex⟩

/-- An entry of the snapshot against the table that has the batch. -/
def compareEntry (after : LogTable) (diff : EnumDiff) (entry : LogTable.EnumSnapshotEntry) :
    EnumDiff :=
  match after.enumDictionaries.find entry.kid with
  -- The dictionary is gone: the column was demoted.
  | none =>
    let stashed := if entry.typeBefore = .level then diff.stash entry.columnIndex
      entry.levelToRawBytes else diff
    stashed.emit .demoted entry.columnIndex
  | some dictionary =>
    let typeAfter := (after.columns[entry.columnIndex]?.map (·.type)).getD entry.typeBefore
    if entry.typeBefore = .enumeration ∧
      -- A column that has become a Level column is announced as a new one.
      typeAfter = .level then diff.emit .promoted entry.columnIndex
    else if dictionary.size ≠ entry.sizeBefore then diff.emit .grew entry.columnIndex
    else diff

/-- A key that was demoted within the batch, unless its column has its signal. -/
def reportDemotedKey (after : LogTable) (diff : EnumDiff) (kid : KeyId) : EnumDiff :=
  match after.findColumnIndexByKey kid with
  | none => diff
  | some columnIndex =>
    if diff.demotedThisBatch columnIndex then diff else diff.emit .demoted columnIndex

/-- A back-filled column that became a dictionary column. -/
def reportBackfilled (after : LogTable) (snapshot : List LogTable.EnumSnapshotEntry)
    (diff : EnumDiff) (columnIndex : Nat) :
    EnumDiff :=
  match after.columns[columnIndex]? with
  | none => diff
  | some column =>
    if column.type.isEnumLike = false then diff
    else if snapshot.any (·.columnIndex = columnIndex) then diff
    else diff.emit .promoted columnIndex

/-- What `AppendBatch` emits, from the table before the batch and the table that has it. -/
def ofBatch (before after : LogTable) : EnumDiff :=
  let snapshot := before.enumSnapshot
  let compared := snapshot.foldl (compareEntry after) empty
  let demoted := after.lastBatchDemotedKeys.foldl (reportDemotedKey after) compared
  match after.lastBackfillRange with
  | none => demoted
  | some (firstColumn, lastColumn) =>
    if after.rowCount = 0 then demoted
    else (List.range' firstColumn (lastColumn + 1 - firstColumn)).foldl
      (reportBackfilled after snapshot) demoted

/-- A column before and after the end of the stream. -/
def compareColumn (before after : LogTable) (diff : EnumDiff) (columnIndex : Nat) : EnumDiff :=
  match before.columns[columnIndex]?, after.columns[columnIndex]? with
  | some columnBefore, some columnAfter =>
    let demoted := (diff.stash columnIndex (before.capturedLevels columnIndex)).emit .demoted
      columnIndex
    if columnBefore.type.isEnumLike = false ∧
      columnAfter.type.isEnumLike = true then diff.emit .promoted columnIndex
    else if columnBefore.type = .enumeration ∧
      columnAfter.type = .level then diff.emit .promoted columnIndex
    -- The texts behind the levels are kept, so that filters can name them.
    else if columnBefore.type.isEnumLike = true ∧ columnAfter.type.isEnumLike = false then demoted
    else if columnBefore.type = .level ∧ columnAfter.type = .enumeration then demoted
    else diff
  | _, _ => diff

/-- What `EndStreaming` emits, from the table before and after the last detection. -/
def ofEnd (before after : LogTable) : EnumDiff :=
  (List.range (min before.columnCount after.columnCount)).foldl (compareColumn before after) empty

/-- Nothing happened to what is stashed for a column, and every signal is still there. -/
structure Keeps (columnIndex : Nat) (old new : EnumDiff) : Prop where
  mapping : new.lastBatchLevelDemoteMappingFor columnIndex = old.lastBatchLevelDemoteMappingFor
    columnIndex
  signals : old.signals <+: new.signals

section Keeps

variable {columnIndex : Nat} {first second third : EnumDiff} {after : LogTable}

/-- A difference as it is. -/
@[refl] theorem Keeps.refl (diff : EnumDiff) : Keeps columnIndex diff diff := ⟨rfl, List.prefix_rfl⟩

/-- One change after another. -/
theorem Keeps.trans (one : Keeps columnIndex first second) (two : Keeps columnIndex second third) :
    Keeps columnIndex first third := ⟨two.mapping.trans one.mapping, one.signals.trans two.signals⟩

/-- A signal stashes nothing. -/
theorem keeps_emit (diff : EnumDiff) (reason : EnumColumnsChangeReason) (other : Nat) :
    Keeps columnIndex diff (diff.emit reason other) := ⟨rfl, List.prefix_append _ _⟩

/-- What is stashed for a column is there, unless it is nothing. -/
theorem mappingFor_stash (diff : EnumDiff) (columnIndex other : Nat) (strings : LevelStrings) :
    (diff.stash other strings).lastBatchLevelDemoteMappingFor columnIndex =
      if other = columnIndex ∧ strings.entries ≠ [] then some strings
        else diff.lastBatchLevelDemoteMappingFor columnIndex := by
  unfold stash lastBatchLevelDemoteMappingFor
  -- Without strings nothing is stashed.
  by_cases none_ : strings.entries = []
  · simp [none_]
  · have some_ : strings.entries.isEmpty = false := by simpa using none_
    simp only [some_, Bool.false_eq_true, if_false, KeyedList.find_put, ne_eq, none_,
      not_false_eq_true, and_true,
      @eq_comm _ columnIndex]

/-- Another column's strings are stashed elsewhere. -/
theorem keeps_stash (diff : EnumDiff) {other : Nat} (different : other ≠ columnIndex)
    (strings : LevelStrings) :
    Keeps columnIndex diff (diff.stash other strings) := by
  refine ⟨by rw [mappingFor_stash, if_neg fun both => different both.1], ?_⟩
  unfold stash
  split <;> exact List.prefix_rfl

/-- Another column's entry. -/
theorem keeps_compareEntry (diff : EnumDiff) {entry : LogTable.EnumSnapshotEntry}
    (different : entry.columnIndex ≠ columnIndex) :
    Keeps columnIndex diff (compareEntry after diff entry) := by
  -- Every branch stashes for its own column or emits a signal.
  unfold compareEntry
  split
  · refine Keeps.trans ?_ (keeps_emit _ _ _)
    split
    · exact keeps_stash diff different _
    · exact .refl diff
  · simp only
    split
    · exact keeps_emit _ _ _
    · split
      · exact keeps_emit _ _ _
      · exact .refl diff

/-- A key that was demoted within the batch. -/
theorem keeps_reportDemotedKey (diff : EnumDiff) (kid : KeyId) :
    Keeps columnIndex diff (reportDemotedKey after diff kid) := by
  unfold reportDemotedKey
  repeat' split
  all_goals first | exact .refl diff | exact keeps_emit _ _ _

/-- A back-filled column. -/
theorem keeps_reportBackfilled (snapshot : List LogTable.EnumSnapshotEntry) (diff : EnumDiff)
    (other : Nat) :
    Keeps columnIndex diff (reportBackfilled after snapshot diff other) := by
  unfold reportBackfilled
  repeat' split
  all_goals first | exact .refl diff | exact keeps_emit _ _ _

/-- Another column at the end of the stream. -/
theorem keeps_compareColumn (before : LogTable) (diff : EnumDiff) {other : Nat}
    (different : other ≠ columnIndex) :
    Keeps columnIndex diff (compareColumn before after diff other) := by
  have demoted := (keeps_stash diff different (before.capturedLevels other)).trans
    (keeps_emit _ .demoted other)
  unfold compareColumn
  -- Whatever is emitted or stashed is for the other column.
  split
  · simp only
    repeat' split
    all_goals first | exact keeps_emit _ _ _ | exact demoted | exact .refl diff
  · exact .refl diff

/-- Steps that keep make a fold that does. -/
theorem keeps_foldl {ι : Type*} {step : EnumDiff → ι → EnumDiff} {items : List ι}
    (each : ∀ diff, ∀ item ∈ items, Keeps columnIndex diff (step diff item)) (diff : EnumDiff) :
    Keeps columnIndex diff (items.foldl step diff) := by
  refine foldl_invariant (fun later => Keeps columnIndex diff later) (fun later item member kept =>
    ?_) (.refl diff)
  exact kept.trans (each later item member)

end Keeps

/-- What is stashed for a column: its strings, if there are any. -/
def stashed (strings : LevelStrings) : Option LevelStrings := if strings.entries = [] then none
    else some strings

section Demoted

variable {before after : LogTable} {columnIndex : Nat} {column : Column}

/-- A fold that comes to a column once. -/
theorem foldl_once {ι : Type*} {step : EnumDiff → ι → EnumDiff} {front back : List ι} {own : ι}
    {strings : LevelStrings}
    (others : ∀ diff, ∀ item ∈ front ++ back, Keeps columnIndex diff (step diff item))
    (once : ∀ diff, step diff own = (diff.stash columnIndex strings).emit .demoted columnIndex)
    (diff : EnumDiff)
    (fresh : diff.lastBatchLevelDemoteMappingFor columnIndex = none) :
    ((front ++ own :: back).foldl step diff).lastBatchLevelDemoteMappingFor columnIndex =
      stashed strings ∧
      ⟨.demoted, columnIndex⟩ ∈ ((front ++ own :: back).foldl step diff).signals := by
  -- The items in front and behind leave the column alone.
  have early := keeps_foldl (fun diff item member =>
    others diff item (List.mem_append_left _ member)) diff
  have late := keeps_foldl (fun diff item member =>
    others diff item (List.mem_append_right _ member))
    (step (front.foldl step diff) own)
  rw [List.foldl_append, List.foldl_cons]
  constructor
  · rw [late.mapping, once]
    refine (mappingFor_stash ..).trans ?_
    rw [early.mapping, fresh, stashed]
    by_cases none_ : strings.entries = [] <;> simp [none_]
  · refine late.signals.subset ?_
    rw [once]
    exact List.mem_append_right _ (List.mem_singleton_self _)

/-- The entry of a level column that has a dictionary. -/
theorem snapshotColumn_of_level (level : column.type = .level)
    {kid : KeyId} {dictionary : EnumDictionary}
    (resolved : before.resolveEnumColumn columnIndex = (some kid, some dictionary)) :
    before.snapshotColumn columnIndex column =
      some ⟨kid, columnIndex, dictionary.size, .level, before.capturedLevels columnIndex⟩ := by
  simp [LogTable.snapshotColumn, resolved, level, show ColumnType.isEnumLike .level = true from rfl]

/-- An entry is of the column that it was made for. -/
theorem columnIndex_of_snapshotColumn {entry : LogTable.EnumSnapshotEntry}
    (made : before.snapshotColumn columnIndex column = some entry) :
    entry.columnIndex = columnIndex := by
  -- An entry is made of its column's number, or not at all.
  unfold LogTable.snapshotColumn at made
  split at made
  · cases made
  · split at made
    · cases made
      rfl
    · cases made

/-- A batch that takes the dictionary of a level column stashes its strings and says so. -/
theorem ofBatch_demoted (held : before.columns[columnIndex]? = some column)
    (level : column.type = .level)
    {kid : KeyId} {dictionary : EnumDictionary}
    (resolved : before.resolveEnumColumn columnIndex = (some kid, some dictionary))
    (gone : after.enumDictionaries.find kid = none) :
    (ofBatch before after).lastBatchLevelDemoteMappingFor columnIndex = stashed
      (before.capturedLevels columnIndex) ∧
      ⟨.demoted, columnIndex⟩ ∈ (ofBatch before after).signals := by
  obtain ⟨inside, rfl⟩ := List.getElem?_eq_some_iff.mp held
  -- The snapshot has one entry of the column, between those of the columns before and behind it.
  have columns : before.columns = before.columns.take columnIndex ++ before.columns[columnIndex] ::
      before.columns.drop (columnIndex + 1) := by
    rw [← List.drop_eq_getElem_cons inside, List.take_append_drop]
  have size : (before.columns.take columnIndex).length = columnIndex := by
    rw [List.length_take]
    omega
  let entryOf : Column × Nat → Option LogTable.EnumSnapshotEntry :=
    fun entry => before.snapshotColumn entry.2 entry.1
  let front := (before.columns.take columnIndex).zipIdx.filterMap entryOf
  let back := ((before.columns.drop (columnIndex + 1)).zipIdx (columnIndex + 1)).filterMap entryOf
  let own : LogTable.EnumSnapshotEntry :=
    ⟨kid, columnIndex, dictionary.size, .level, before.capturedLevels columnIndex⟩
  have snapshot : before.enumSnapshot = front ++ own :: back := by
    have parts : before.columns.zipIdx = (before.columns.take columnIndex).zipIdx ++
        (before.columns[columnIndex], columnIndex) :: (before.columns.drop (columnIndex + 1)).zipIdx
          (columnIndex + 1) := by
      conv_lhs => rw [columns]
      rw [List.zipIdx_append, List.zipIdx_cons, Nat.zero_add, size]
    show before.columns.zipIdx.filterMap entryOf = _
    rw [parts, List.filterMap_append, List.filterMap_cons]
    have made : entryOf (before.columns[columnIndex], columnIndex) = some own :=
      snapshotColumn_of_level level resolved
    rw [made]
  have others : ∀ diff, ∀ entry ∈ front ++ back,
      Keeps columnIndex diff (compareEntry after diff entry) := by
    intro diff entry member
    refine keeps_compareEntry diff fun same => ?_
    rcases List.mem_append.mp member with listed | listed
    · obtain ⟨⟨other, index⟩, made, isEntry⟩ := List.mem_filterMap.mp listed
      have index_ := columnIndex_of_snapshotColumn isEntry
      have bound := List.snd_lt_of_mem_zipIdx made
      simp only at index_ bound
      omega
    · obtain ⟨⟨other, index⟩, made, isEntry⟩ := List.mem_filterMap.mp listed
      have index_ := columnIndex_of_snapshotColumn isEntry
      have bound := List.le_snd_of_mem_zipIdx made
      simp only at index_ bound
      omega
  have once : ∀ diff, compareEntry after diff own =
      (diff.stash columnIndex (before.capturedLevels columnIndex)).emit .demoted columnIndex := by
    intro diff
    simp only [compareEntry, own, gone, if_true]
  obtain ⟨mapping, signal⟩ := foldl_once others once empty rfl
  have rest : Keeps columnIndex ((front ++ own :: back).foldl (compareEntry after) empty)
      (ofBatch before after) := by
    unfold ofBatch
    rw [snapshot]
    have reported : Keeps columnIndex ((front ++ own :: back).foldl (compareEntry after) empty)
        (after.lastBatchDemotedKeys.foldl (reportDemotedKey after)
          ((front ++ own :: back).foldl (compareEntry after) empty)) :=
      keeps_foldl (fun diff kid _ => keeps_reportDemotedKey diff kid) _
    simp only
    split
    · exact reported
    · split
      · exact reported
      · exact reported.trans (keeps_foldl (fun diff other _ =>
          keeps_reportBackfilled _ diff other) _)
  exact ⟨rest.mapping.trans mapping, rest.signals.subset signal⟩

/-- So does the end of a stream that takes the levels of a column. -/
theorem ofEnd_demoted (held : before.columns[columnIndex]? = some column)
    (level : column.type = .level) {later : Column}
    (remains : after.columns[columnIndex]? = some later) (other : later.type ≠ .level) :
    (ofEnd before after).lastBatchLevelDemoteMappingFor columnIndex = stashed
      (before.capturedLevels columnIndex) ∧
      ⟨.demoted, columnIndex⟩ ∈ (ofEnd before after).signals := by
  have inside : columnIndex < min before.columnCount after.columnCount :=
    Nat.lt_min.mpr ⟨(List.getElem?_eq_some_iff.mp held).1, (List.getElem?_eq_some_iff.mp remains).1⟩
  generalize count : min before.columnCount after.columnCount = total at inside
  have parts : List.range total = List.range columnIndex ++ columnIndex :: List.range'
      (columnIndex + 1) (total - (columnIndex + 1)) := by
    have sum : total = columnIndex + (total - (columnIndex + 1) + 1) := by omega
    conv_lhs => rw [sum, List.range_eq_range', ← List.range'_append_1, Nat.zero_add,
      List.range'_succ]
    rw [List.range_eq_range']
  unfold ofEnd
  rw [count, parts]
  refine foldl_once (fun diff other member => keeps_compareColumn before diff ?_) (fun diff =>
    ?_) empty rfl
  · rintro rfl
    rcases List.mem_append.mp member with listed | listed
    · exact absurd (List.mem_range.mp listed) (lt_irrefl _)
    · have bound := (List.mem_range'_1.mp listed).1
      omega
  · -- Any type but the level type counts as a demotion.
    cases type : later.type <;> first | exact absurd type other |
      simp [compareColumn, held, remains, type, level, ColumnType.isEnumLike]

end Demoted

end EnumDiff

end Loglib
