import Loglib.Table.LogTable

/-! Encoding columns into dictionaries and back, and the level ranks derived from them. -/

namespace Loglib

/-- What the encoder made of one row. -/
inductive RowOutcome where
  | alreadyEncoded
  | encoded
  | unencoded (sawLong sawWrongType : Bool)
  | full
deriving DecidableEq, Repr

/-- Count a row, a long value before a mistyped one. -/
def EnumColumnHealth.record (health : EnumColumnHealth) : RowOutcome → EnumColumnHealth
  | .encoded => { health with totalSlots := health.totalSlots + 1 }
  | .unencoded true _ =>
    { health with
      totalSlots := health.totalSlots + 1, longValueSlots := health.longValueSlots + 1 }
  | .unencoded false true =>
    { health with
      totalSlots := health.totalSlots + 1, wrongTypeSlots := health.wrongTypeSlots + 1 }
  | _ => health

/-- Rows after encoding, up to the row that found the dictionary full. -/
structure EncodedRows where
  lines : List LogLine
  dict : EnumDictionary
  health : EnumColumnHealth
  ok : Bool

section Encoding

variable (sources : List LineSource) (maxLen : Nat)

/-- Encode the first slot of a row that is short enough text, unless the row has an id already. -/
def encodeRow (dict : EnumDictionary) (line : LogLine) :
    List KeyId → Bool → Bool → LogLine × EnumDictionary × RowOutcome
  | [], sawLong, sawWrongType => (line, dict, .unencoded sawLong sawWrongType)
  | id :: rest, sawLong, sawWrongType =>
    match line.findCompact id with
    -- An alias the row does not have is passed over.
    | none => encodeRow dict line rest sawLong sawWrongType
    | some slot =>
      -- The row was encoded by an earlier pass.
      if slot.isDictRef then (line, dict, .alreadyEncoded)
      else
        match line.peekStringView sources slot with
        | none => encodeRow dict line rest sawLong true
        | some text =>
          -- A text that is too long is never put into a dictionary.
          if maxLen ≠ 0 ∧ maxLen < text.length then encodeRow dict line rest true sawWrongType
          else
            match dict.insert text with
            -- The cap is reached, and the row stays as it is.
            | (dict, none) => (line, dict, .full)
            | (dict, some vid) => (line.setCompact id (.dictRef vid), dict, .encoded)

/-- Encode rows in order, and stop at the first one the dictionary has no room for. -/
def encodeRows (aliasKeys : List KeyId) :
    EnumDictionary → EnumColumnHealth → List LogLine → EncodedRows
  | dict, health, [] => ⟨[], dict, health, true⟩
  | dict, health, line :: rest =>
    match encodeRow sources maxLen dict line aliasKeys false false with
    | (line, dict, .full) => ⟨line :: rest, dict, health, false⟩
    | (line, dict, outcome) =>
      let tail := encodeRows aliasKeys dict (health.record outcome) rest
      { tail with lines := line :: tail.lines }

end Encoding

section Materialising

/-- Turn one dictionary slot back into bytes of its source. -/
def demoteSlot (dict : Option EnumDictionary) (id : KeyId) (sources : List LineSource)
    (line : LogLine) : Option (List LineSource × LogLine) :=
  match line.findCompact id with
  | some (.dictRef vid) =>
    -- A dictionary that is gone resolves to the empty text.
    let text := (dict.map (·.resolve vid)).getD []
    match sources[line.source]? with
    | none => some (sources, line.setCompact id .monostate)
    | some source =>
      match source.appendOwnedBytes line.lineId text with
      -- The source is full.
      | none => none
      | some (grown, offset) =>
        some (sources.set line.source grown,
          line.setCompact id (.ownedString offset (UInt32.ofNat text.length)))
  | _ => some (sources, line)

/-- Turn the dictionary slots of a row back, key by key. -/
def demoteLine (dict : Option EnumDictionary) :
    List KeyId → List LineSource → LogLine → Option (List LineSource × LogLine)
  | [], sources, line => some (sources, line)
  | id :: rest, sources, line =>
    match demoteSlot dict id sources line with
    | none => none
    | some (sources, line) => demoteLine dict rest sources line

/-- Turn the dictionary slots of all rows back, in order. -/
def demoteLines (dict : Option EnumDictionary) (keyIds : List KeyId) :
    List LineSource → List LogLine → Option (List LineSource × List LogLine)
  | sources, [] => some (sources, [])
  | sources, line :: rest =>
    match demoteLine dict keyIds sources line with
    | none => none
    | some (sources, line) =>
      match demoteLines dict keyIds sources rest with
      | none => none
      | some (sources, rest) => some (sources, line :: rest)

end Materialising

namespace LogTable

/-- `SetColumnType` on the table's configuration. -/
def setColumnType (table : LogTable) (columnIndex : Nat) (type : ColumnType) : LogTable :=
  { table with configuration := table.configuration.setColumnType columnIndex type }

/-- The ids of a column's registered keys, in column order. -/
def registeredKeys (table : LogTable) (column : Column) : List KeyId :=
  column.keys.filterMap table.keys.find

/-- Intern an alias key and point it at the canonical key's dictionary. -/
def wireAlias (canonical : KeyId) (table : LogTable) (key : Bytes) : LogTable :=
  let interned := table.keys.getOrInsert key
  { table with
    keys := interned.1
    enumDictionaries := (table.enumDictionaries.aliasTo canonical interned.2).1 }

/-- Intern a column's keys: the first gets a dictionary, the others share it where they can. -/
def wireColumnKeys (table : LogTable) : List Bytes → LogTable × Option KeyId
  | [] => (table, none)
  | key :: rest =>
    let interned := table.keys.getOrInsert key
    let seeded : LogTable :=
      { table with
        keys := interned.1
        enumDictionaries := table.enumDictionaries.getOrInsert interned.2 table.enumValueCap }
    (rest.foldl (wireAlias interned.2) seeded, some interned.2)

/-- `EncodeColumnRange` up to the last row. The flag is false when the dictionary ran full. -/
def encodeColumnRange (table : LogTable) (aliasKeys : List KeyId) (rowBegin : Nat)
    (healthKey : KeyId) : LogTable × Bool :=
  match aliasKeys with
  | [] => (table, true)
  | canonical :: _ =>
    -- The dictionary is made under the front key; every alias writes into it.
    let registry := table.enumDictionaries.getOrInsert canonical table.enumValueCap
    let dict := (registry.find canonical).getD (.ofCap table.enumValueCap)
    let health := (table.enumColumnHealth healthKey).getD .empty
    let encoded :=
      encodeRows table.sources table.enumValueMaxLen aliasKeys dict health
        (table.lines.drop rowBegin)
    ({ table with
        lines := table.lines.take rowBegin ++ encoded.lines
        enumDictionaries := registry.write canonical encoded.dict
        enumColumnHealth := Function.update table.enumColumnHealth healthKey
          (some encoded.health) },
      encoded.ok)

/-- `RefreshLevelRankCache`: append the levels of the dictionary ids not ranked yet. -/
def refreshLevelRankCache (table : LogTable) (columnIndex : Nat) : LogTable :=
  match table.columns[columnIndex]? with
  | none => table
  | some column =>
    if column.type ≠ .level then table
    else
      match column.keys.findSome? table.keys.find with
      | none => table
      | some canonical =>
        match table.enumDictionaries.find canonical with
        | none =>
          { table with levelRankCache := Function.update table.levelRankCache canonical (some []) }
        | some dict =>
          let held := (table.levelRankCache canonical).getD []
          -- A dictionary that shrank is ranked from scratch.
          let held := if dict.size < held.length then [] else held
          let added := (dict.values.names.drop held.length).map fun text =>
            (LogLevel.resolveLevel text column.levelMapping).getD .unknown
          { table with
            levelRankCache := Function.update table.levelRankCache canonical
              (some (held ++ added)) }

/-- Enough dictionary entries are known levels: one stray for each four of them. -/
def looksLikeLevels (dict : EnumDictionary) (levelMapping : List (Bytes × Bytes)) : Bool :=
  let canonicalEntries :=
    dict.values.names.countP fun text => (LogLevel.resolveLevel text levelMapping).isSome
  let unrecognizedEntries := dict.size - canonicalEntries
  canonicalEntries ≠ 0 && unrecognizedEntries * levelDictTolerance ≤ canonicalEntries

/-- The column becomes a level column, is ranked, and waits to be moved. -/
def becomeLevel (table : LogTable) (columnIndex : Nat) (canonical : KeyId) : LogTable :=
  let ranked := (table.setColumnType columnIndex .level).refreshLevelRankCache columnIndex
  { ranked with pendingLevelBubbleKeys := ranked.pendingLevelBubbleKeys ++ [canonical] }

/-- `MaybePromoteToLevel`. -/
def maybePromoteToLevel (table : LogTable) (columnIndex : Nat) : LogTable :=
  match table.columns[columnIndex]? with
  | none => table
  | some column =>
    -- Only a column that was detected, and whose key speaks of a level, is looked at.
    if column.type ≠ .enumeration ∨ column.autoDetect = false ∨
        column.keys.any isLogLevelKey = false then
      table
    else
      match column.keys.findSome? table.keys.find with
      | none => table
      | some canonical =>
        match table.enumDictionaries.find canonical with
        | none => table
        | some dict =>
          if looksLikeLevels dict column.levelMapping then table.becomeLevel columnIndex canonical
          else table

/-- A promotion to level happens for a detected enumeration under a level name, or not at all. -/
theorem maybePromoteToLevel_cases (table : LogTable) (columnIndex : Nat) :
    table.maybePromoteToLevel columnIndex = table ∨
    ∃ column canonical, table.columns[columnIndex]? = some column ∧
      column.type = .enumeration ∧ column.autoDetect = true ∧
      column.keys.any isLogLevelKey = true ∧
      column.keys.findSome? table.keys.find = some canonical ∧
      table.maybePromoteToLevel columnIndex = table.becomeLevel columnIndex canonical := by
  unfold maybePromoteToLevel
  split
  · exact .inl rfl
  · -- Each condition that fails leaves the table as it is.
    rename_i column found
    split
    · exact .inl rfl
    · rename_i eligible
      simp only [not_or, not_not, Bool.not_eq_false] at eligible
      split
      · exact .inl rfl
      · rename_i canonical resolved
        split
        · exact .inl rfl
        · split
          · exact .inr ⟨column, canonical, found, eligible.1, eligible.2.1, eligible.2.2,
              resolved, rfl⟩
          · exact .inl rfl

/-- The column becomes a string column, and its dictionary, health and ranks go. -/
def dropDictionary (table : LogTable) (columnIndex : Nat) (canonical : KeyId)
    (recordForBatch : Bool) (sources : List LineSource) (lines : List LogLine) : LogTable :=
  { table with
    configuration := table.configuration.setColumnType columnIndex .string
    sources := sources
    lines := lines
    enumDictionaries := table.enumDictionaries.erase canonical
    enumColumnHealth := Function.update table.enumColumnHealth canonical none
    levelRankCache := Function.update table.levelRankCache canonical none
    lastBatchDemotedKeys :=
      if recordForBatch then table.lastBatchDemotedKeys ++ [canonical]
      else table.lastBatchDemotedKeys }

/-- `DemoteColumnFromEnum`: the column's ids become text again and its dictionary goes. -/
def demoteColumnFromEnum (table : LogTable) (columnIndex : Nat) (recordForBatch : Bool) :
    Option LogTable :=
  match table.columns[columnIndex]? with
  | none => some table
  | some column =>
    if column.type.isEnumLike = false then some table
    else
      match table.registeredKeys column with
      -- No row can hold a reference under a key that was never registered.
      | [] => some (table.setColumnType columnIndex .string)
      | canonical :: aliases =>
        match demoteLines (table.enumDictionaries.find canonical) (canonical :: aliases)
            table.sources table.lines with
        | none => none
        | some (sources, lines) =>
          some (table.dropDictionary columnIndex canonical recordForBatch sources lines)

/-- A demotion drops a dictionary, retypes a column without registered keys, or does nothing. -/
theorem demoteColumnFromEnum_cases {table next : LogTable} {columnIndex : Nat}
    {recordForBatch : Bool}
    (done : table.demoteColumnFromEnum columnIndex recordForBatch = some next) :
    (next = table ∧ ∀ column, table.columns[columnIndex]? = some column →
      column.type.isEnumLike = false) ∨
    ∃ column, table.columns[columnIndex]? = some column ∧ column.type.isEnumLike = true ∧
      ((table.registeredKeys column = [] ∧ next = table.setColumnType columnIndex .string) ∨
      ∃ canonical aliases sources lines, table.registeredKeys column = canonical :: aliases ∧
        demoteLines (table.enumDictionaries.find canonical) (canonical :: aliases) table.sources
          table.lines = some (sources, lines) ∧
        next = table.dropDictionary columnIndex canonical recordForBatch sources lines) := by
  unfold demoteColumnFromEnum at done
  split at done
  · rename_i absent
    exact .inl ⟨(Option.some.inj done).symm, by simp [absent]⟩
  · -- A column of another type is left alone.
    rename_i column found
    split at done
    · rename_i plain
      exact .inl ⟨(Option.some.inj done).symm, by simp [found, plain]⟩
    · -- A column without a registered key has no dictionary; any other one has its ids written
      -- back.
      rename_i enumLike
      refine .inr ⟨column, found, by simpa using enumLike, ?_⟩
      split at done
      · rename_i none_
        exact .inl ⟨none_, (Option.some.inj done).symm⟩
      · rename_i canonical aliases ids
        split at done
        · simp at done
        · rename_i sources lines converted
          exact .inr ⟨canonical, aliases, sources, lines, ids, converted,
            (Option.some.inj done).symm⟩

/-- What a promotion does once the keys are wired: encode every row, and demote if that fails. -/
def encodePromoted (wired : LogTable) (columnIndex : Nat) (column : Column) (canonical : KeyId) :
    Option LogTable :=
  let encoded := wired.encodeColumnRange (wired.registeredKeys column) 0 canonical
  let health := (encoded.1.enumColumnHealth canonical).getD .empty
  if encoded.2 = false ∨ health.shouldDemote enumHealthMinSamples then
    encoded.1.demoteColumnFromEnum columnIndex true
  else if column.keys.any isLogLevelKey then some (encoded.1.maybePromoteToLevel columnIndex)
  else some encoded.1

/-- `PromoteColumnToEnum`: wire the keys, encode every row, and demote again if that fails. -/
def promoteColumnToEnum (table : LogTable) (columnIndex : Nat) : Option LogTable :=
  match table.columns[columnIndex]? with
  | none => some table
  | some column =>
    if column.type.isEnumLike then some table
    else
      match (table.setColumnType columnIndex .enumeration).wireColumnKeys column.keys with
      -- Every caller has checked that the column has keys.
      | (wired, none) => some wired
      | (wired, some canonical) => wired.encodePromoted columnIndex column canonical

/-- A promoted column ends demoted, as an enumeration, or as a level column. -/
theorem encodePromoted_cases {wired next : LogTable} {columnIndex : Nat} {column : Column}
    {canonical : KeyId} (done : wired.encodePromoted columnIndex column canonical = some next) :
    (wired.encodeColumnRange (wired.registeredKeys column) 0 canonical).1.demoteColumnFromEnum
      columnIndex true = some next ∨
    ((wired.encodeColumnRange (wired.registeredKeys column) 0 canonical).2 = true ∧
      (next = (wired.encodeColumnRange (wired.registeredKeys column) 0 canonical).1 ∨
        next = (wired.encodeColumnRange (wired.registeredKeys column) 0
          canonical).1.maybePromoteToLevel columnIndex)) := by
  unfold encodePromoted at done
  -- The encoding failed and the column was demoted, or it succeeded and may become a Level column.
  simp only at done
  split at done
  · exact .inl done
  · rename_i healthy
    simp only [not_or, Bool.not_eq_false] at healthy
    split at done
    · exact .inr ⟨healthy.1, .inr (Option.some.inj done).symm⟩
    · exact .inr ⟨healthy.1, .inl (Option.some.inj done).symm⟩

/-- One column of `RefreshSnapshotEnumKeys`. -/
def refreshSnapshotEnumColumn (table : LogTable) (columnIndex : Nat) : LogTable :=
  match table.columns[columnIndex]? with
  | none => table
  | some column =>
    if column.type.isEnumLike then
      (table.wireColumnKeys column.keys).1.refreshLevelRankCache columnIndex
    else table

/-- `RefreshSnapshotEnumKeys`: dictionaries and fresh level ranks for every dictionary column. -/
def refreshSnapshotEnumKeys (table : LogTable) : LogTable :=
  (List.range table.columns.length).foldl refreshSnapshotEnumColumn
    { table with levelRankCache := fun _ => none }

/-- `RefreshSnapshotTimeKeys`: the keys of time columns that parsers promote inline. -/
def refreshSnapshotTimeKeys (table : LogTable) : LogTable :=
  let timeKeys := (table.columns.filter fun column => column.type = .time).flatMap (·.keys)
  timeKeys.foldl
    (fun table key =>
      let interned := table.keys.getOrInsert key
      { table with
        keys := interned.1
        stageBSnapshotTimeKeys := table.stageBSnapshotTimeKeys ++ [interned.2] })
    { table with stageBSnapshotTimeKeys := [], postSnapshotTimeKeys := [] }

end LogTable

end Loglib
