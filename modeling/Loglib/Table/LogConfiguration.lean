import Loglib.Basic.Bytes

/-! Columns of a session: which keys they show, their types, and how new keys become columns. -/

namespace Loglib

/-- `std::rotate`: the part from `middle` to `last` moves before the part from `first`. -/
def rotateRange {α : Type*} (items : List α) (first middle last : Nat) : List α :=
  items.take first ++ (items.take last).drop middle ++ (items.take middle).drop first ++
    items.drop last

/-- Rotating commutes with mapping the items. -/
theorem map_rotateRange {α β : Type*} (f : α → β) (items : List α) (first middle last : Nat) :
    (rotateRange items first middle last).map f = rotateRange (items.map f) first middle last := by
  simp [rotateRange]

/-- `LogConfiguration::Type`. -/
inductive ColumnType where
  | any
  | string
  | boolean
  | integer
  | floating
  | number
  | time
  | enumeration
  | level
deriving DecidableEq, Repr

/-- The column keeps its values in a dictionary. -/
def ColumnType.isEnumLike : ColumnType → Bool
  | .enumeration => true
  | .level => true
  | _ => false

/-- One column: the first of its keys that a row carries is the value it shows. -/
structure Column where
  header : Bytes
  keys : List Bytes
  printFormat : Bytes
  type : ColumnType
  parseFormats : List Bytes
  /-- Alias and canonical name of each level override. -/
  levelMapping : List (Bytes × Bytes)
  autoDetect : Bool
deriving DecidableEq, Repr

/-- `LogConfiguration::Sort`: the persisted sort, `columnIndex = -1` for none. -/
structure ColumnSort where
  columnIndex : Int
  descending : Bool
deriving DecidableEq, Repr

/-- The part of the configuration that the table reads and writes. -/
structure LogConfiguration where
  columns : List Column
  sort : ColumnSort
deriving DecidableEq, Repr

/-- Field names that become time columns. -/
def timestampKeys : List Bytes :=
  [bytes "timestamp", bytes "time", bytes "ts", bytes "@timestamp", bytes "datetime",
    bytes "created_at"]

/-- The lower-cased key is a timestamp field name. -/
def isTimestampKey (key : Bytes) : Bool := timestampKeys.contains (key.map foldAscii)

/-- Known log-level field names. -/
def levelKeys : List Bytes :=
  [bytes "level", bytes "severity", bytes "loglevel", bytes "log.level", bytes "log_level",
    bytes "lvl", bytes "levelname", bytes "priority",
    bytes "l", bytes "lv", bytes "lev", bytes "sev", bytes "s", bytes "loglvl",
    bytes "severity_text", bytes "severity.text", bytes "severitytext", bytes "log_severity",
    bytes "log.severity", bytes "logseverity",
    bytes "level_name", bytes "level.name", bytes "@level"]

/-- The key is a log-level field name, whatever its case. -/
def isLogLevelKey (key : Bytes) : Bool := levelKeys.any fun name => equalsIgnoreCaseAscii key name

/-- Formats a fresh time column parses by. -/
def defaultTimeParseFormats : List Bytes :=
  [bytes "%FT%T%Ez", bytes "%F %T%Ez", bytes "%FT%T", bytes "%F %T",
    bytes "%d/%b/%Y:%H:%M:%S %z", bytes "%b %e %H:%M:%S", bytes "%b %d %H:%M:%S"]

/-- Format a fresh time column prints by. -/
def defaultTimePrintFormat : Bytes := bytes "%F %H:%M:%S"

/-- Format every other fresh column prints by. -/
def defaultPrintFormat : Bytes := bytes "\x7b\x7d"

/-- The column of a key seen for the first time. -/
def freshColumn (key : Bytes) : Column :=
  if isTimestampKey key then
    { header := key, keys := [key], printFormat := defaultTimePrintFormat, type := .time
      parseFormats := defaultTimeParseFormats, levelMapping := [], autoDetect := true }
  else
    { header := key, keys := [key], printFormat := defaultPrintFormat, type := .any
      parseFormats := [], levelMapping := [], autoDetect := true }

/-- A fresh column shows its key and nothing else. -/
@[simp] theorem freshColumn_keys (key : Bytes) : (freshColumn key).keys = [key] := by
  unfold freshColumn
  split <;> rfl

/-- A fresh column is in the hands of the detector. -/
@[simp] theorem freshColumn_autoDetect (key : Bytes) : (freshColumn key).autoDetect = true := by
  unfold freshColumn
  split <;> rfl

/-- A fresh column has no dictionary yet. -/
@[simp] theorem freshColumn_isEnumLike (key : Bytes) :
    (freshColumn key).type.isEnumLike = false := by
  unfold freshColumn
  split <;> rfl

namespace LogConfiguration

/-- Some column shows the key. -/
def isKeyInAnyColumn (config : LogConfiguration) (key : Bytes) : Bool :=
  config.columns.any fun column => column.keys.contains key

/-- One step of `AppendKeys`. -/
def appendKey (config : LogConfiguration) (key : Bytes) : LogConfiguration :=
  if config.isKeyInAnyColumn key then config
  else { config with columns := config.columns ++ [freshColumn key] }

/-- Append a column for each key that no column shows. -/
def appendKeys (config : LogConfiguration) (newKeys : List Bytes) : LogConfiguration :=
  newKeys.foldl appendKey config

/-- Where a column index ends up when a column moves. -/
def remapColumnIndexAfterMove (columnIndex srcIndex destIndex : Int) : Int :=
  if srcIndex = destIndex then columnIndex
  else if columnIndex = srcIndex then destIndex
  else if srcIndex < destIndex then
    if srcIndex < columnIndex ∧ columnIndex ≤ destIndex then columnIndex - 1 else columnIndex
  else if destIndex ≤ columnIndex ∧ columnIndex < srcIndex then columnIndex + 1
  else columnIndex

/-- The rotation that moves one item to another position. -/
def moveItem {α : Type*} (items : List α) (srcIndex destIndex : Nat) : List α :=
  if destIndex < srcIndex then rotateRange items destIndex srcIndex (srcIndex + 1)
  else rotateRange items srcIndex (srcIndex + 1) (destIndex + 1)

/-- Moving commutes with mapping the items. -/
theorem map_moveItem {α β : Type*} (f : α → β) (items : List α) (srcIndex destIndex : Nat) :
    (moveItem items srcIndex destIndex).map f = moveItem (items.map f) srcIndex destIndex := by
  unfold moveItem
  split <;> exact map_rotateRange f items _ _ _

/-- Move a column, and the sort column index with it. -/
def moveColumn (config : LogConfiguration) (srcIndex destIndex : Nat) : LogConfiguration :=
  if srcIndex = destIndex ∨ config.columns.length ≤ srcIndex ∨
    config.columns.length ≤ destIndex then
    config
  else
    { columns := moveItem config.columns srcIndex destIndex
      sort := { config.sort with
        columnIndex := remapColumnIndexAfterMove config.sort.columnIndex srcIndex destIndex } }

/-- Edit one column in place. Out of range, nothing happens. -/
def modifyColumn (config : LogConfiguration) (columnIndex : Nat) (edit : Column → Column) :
    LogConfiguration :=
  { config with columns := config.columns.modify columnIndex edit }

/-- `SetColumnType`. -/
def setColumnType (config : LogConfiguration) (columnIndex : Nat) (type : ColumnType) :
    LogConfiguration :=
  config.modifyColumn columnIndex fun column => { column with type := type }

/-- `SetColumnTypePair`. -/
def setColumnTypePair (config : LogConfiguration) (columnIndex : Nat) (type : ColumnType)
    (autoDetect : Bool) : LogConfiguration :=
  config.modifyColumn columnIndex fun column =>
    { column with type := type, autoDetect := autoDetect }

/-- `SetColumnPrintFormat`. -/
def setColumnPrintFormat (config : LogConfiguration) (columnIndex : Nat) (printFormat : Bytes) :
    LogConfiguration :=
  config.modifyColumn columnIndex fun column => { column with printFormat := printFormat }

/-- `SetColumnParseFormats`. -/
def setColumnParseFormats (config : LogConfiguration) (columnIndex : Nat)
    (parseFormats : List Bytes) : LogConfiguration :=
  config.modifyColumn columnIndex fun column => { column with parseFormats := parseFormats }

/-- `CANONICAL_LEVEL_COLUMN_INDEX`. -/
def canonicalLevelColumnIndex : Nat := 1

/-- A freshly promoted level column still has to move to the canonical position. -/
def shouldBubbleLevelColumn (config : LogConfiguration) (columnIndex : Nat) : Bool :=
  if config.columns.length ≤ columnIndex then false
  else if config.columns.length < 2 then false
  else if columnIndex = canonicalLevelColumnIndex then false
  else
    -- The first promoted column wins the canonical slot.
    match config.columns[canonicalLevelColumnIndex]? with
    | some column => column.type != .level
    | none => true

/-- Edits that keep the keys of a column keep the keys of all columns. -/
theorem keys_modifyColumn (config : LogConfiguration) (columnIndex : Nat) {edit : Column → Column}
    (keeps : ∀ column, (edit column).keys = column.keys) :
    (config.modifyColumn columnIndex edit).columns.map (·.keys) = config.columns.map (·.keys) := by
  refine List.ext_getElem? fun position => ?_
  simp only [modifyColumn, List.getElem?_map, List.getElem?_modify]
  cases config.columns[position]? with
  | none => simp
  | some column => by_cases same : columnIndex = position <;> simp [same, keeps]

/-- Changing a type changes no key. -/
@[simp] theorem keys_setColumnType (config : LogConfiguration) (columnIndex : Nat)
    (type : ColumnType) :
    (config.setColumnType columnIndex type).columns.map (·.keys) =
      config.columns.map (·.keys) :=
  config.keys_modifyColumn columnIndex fun _ => rfl

/-- What a column gets on its way to `Time`: default formats where it has none. -/
def seedTimeFormats (config : LogConfiguration) (columnIndex : Nat) : LogConfiguration :=
  config.modifyColumn columnIndex fun column =>
    { column with
      printFormat :=
        if column.printFormat.isEmpty then defaultTimePrintFormat else column.printFormat
      parseFormats :=
        if column.parseFormats.isEmpty then defaultTimeParseFormats else column.parseFormats }

/-- What a column gets on its way from `Time` to a plain type: the plain format, and none
to parse. -/
def dropTimeFormats (config : LogConfiguration) (columnIndex : Nat) (previousType : ColumnType) :
    LogConfiguration :=
  if previousType = .time then
    (config.setColumnPrintFormat columnIndex defaultPrintFormat).setColumnParseFormats
      columnIndex []
  else config

/-- Dropping formats changes no key. -/
theorem keys_dropTimeFormats (config : LogConfiguration) (columnIndex : Nat)
    (previousType : ColumnType) :
    (config.dropTimeFormats columnIndex previousType).columns.map (·.keys) =
      config.columns.map (·.keys) := by
  unfold dropTimeFormats
  split
  · -- The formats are cleared one after the other, and neither touches the keys.
    have parsed := (config.setColumnPrintFormat columnIndex defaultPrintFormat).keys_modifyColumn
      columnIndex fun column => (rfl : { column with parseFormats := [] }.keys = column.keys)
    have printed := config.keys_modifyColumn columnIndex fun column =>
      (rfl : { column with printFormat := defaultPrintFormat }.keys = column.keys)
    exact parsed.trans printed
  · rfl

/-- Appending keys keeps the old columns in front and adds fresh ones. -/
theorem appendKeys_columns (config : LogConfiguration) (newKeys : List Bytes) :
    ∃ added : List Bytes, (∀ key ∈ added, key ∈ newKeys ∧ config.isKeyInAnyColumn key = false) ∧
      added.Nodup ∧
      (config.appendKeys newKeys).columns = config.columns ++ added.map freshColumn := by
  -- The induction is on the keys; a key already shown adds nothing.
  induction newKeys generalizing config with
  | nil => exact ⟨[], by simp, List.nodup_nil, by simp [appendKeys]⟩
  | cons key rest ih =>
    obtain ⟨added, fresh, distinct, columns⟩ := ih (config.appendKey key)
    have unfolds : (config.appendKeys (key :: rest)).columns =
        (config.appendKey key).columns ++ added.map freshColumn := by
      rw [← columns]; rfl
    by_cases shown : config.isKeyInAnyColumn key = true
    · have same : config.appendKey key = config := by simp [appendKey, shown]
      rw [same] at fresh unfolds
      exact ⟨added, fun other member => ⟨List.mem_cons_of_mem _ (fresh other member).1,
        (fresh other member).2⟩, distinct, unfolds⟩
    · have hidden : config.isKeyInAnyColumn key = false := by simpa using shown
      have grown : (config.appendKey key).columns = config.columns ++ [freshColumn key] := by
        simp [appendKey, hidden]
      have apart : ∀ other ∈ added, config.isKeyInAnyColumn other = false ∧ other ≠ key := by
        intro other member
        have unseen := (fresh other member).2
        simp only [isKeyInAnyColumn, grown, List.any_append, List.any_cons, freshColumn_keys,
          List.any_nil, Bool.or_false, Bool.or_eq_false_iff, List.contains_cons, List.contains_nil,
          beq_eq_false_iff_ne] at unseen
        exact unseen
      refine ⟨key :: added, ?_,
        List.nodup_cons.mpr ⟨fun member => (apart key member).2 rfl, distinct⟩,
        by rw [unfolds, grown]; simp⟩
      intro other member
      rcases List.mem_cons.mp member with rfl | later
      · exact ⟨List.mem_cons_self .., hidden⟩
      · exact ⟨List.mem_cons_of_mem _ (fresh other later).1, (apart other later).1⟩

end LogConfiguration

end Loglib
