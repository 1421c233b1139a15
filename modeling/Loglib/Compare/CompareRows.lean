import Loglib.Compare.EnumDictRank
import Loglib.Table.LogTable

/-! The row comparator: a key for each column type, and one tail bucket for everything else. -/

namespace Loglib

/-- The values a column type can hold, by the table of the comparator's documentation. -/
def ColumnType.represents : ColumnType → LogValue → Bool
  | .boolean, .bool _ => true
  | .integer, .int64 _ => true
  | .integer, .uint64 _ => true
  -- Infinities clamp to the ends of the range, and only NaN has no place in it.
  | .integer, .double value => !value.isNaN
  | .floating, .int64 _ => true
  | .floating, .uint64 _ => true
  | .floating, .double _ => true
  | .number, .int64 _ => true
  | .number, .uint64 _ => true
  | .number, .double _ => true
  | .time, .int64 _ => true
  | .time, .uint64 _ => true
  | .time, .timestamp _ => true
  | .string, value => !value.isMonostate
  | .any, value => !value.isMonostate
  | _, _ => false

section Extraction

/-- The largest `int64_t`. -/
def int64Max : Int := 2 ^ 63 - 1

/-- The smallest `int64_t`. -/
def int64Min : Int := -2 ^ 63

/-- Oversized unsigned values sort at the largest signed one. -/
def clampUnsigned (value : UInt64) : Int :=
  if int64Max < value.toNat then int64Max else value.toNat

/-- The `bool` of a value. -/
def toBool : LogValue → Option Bool
  | .bool value => some value
  | _ => none

/-- The `int64_t` of a number, clamped at both ends; NaN has none. -/
def toInt : LogValue → Option Int
  | .int64 value => some value.toInt
  | .uint64 value => some (clampUnsigned value)
  | .double value =>
    if value.isNaN then none
    else if !value.lt (.ofInt int64Max) then some int64Max
    else if !(Double.ofInt int64Min).lt value then some int64Min
    else some value.trunc
  | _ => none

/-- The `double` of a number. -/
def toDouble : LogValue → Option Double
  | .double value => some value
  | .int64 value => some (.ofInt value.toInt)
  | .uint64 value => some (.ofInt value.toNat)
  | _ => none

/-- Epoch microseconds of a time-shaped value, unsigned ones clamped. -/
def toMicros : LogValue → Option Int
  | .timestamp microseconds => some microseconds.toInt
  | .int64 value => some value.toInt
  | .uint64 value => some (clampUnsigned value)
  | _ => none

end Extraction

section Comparators

/-- What a value compares by, if anything: an empty slot never reaches the extraction. -/
def extracted {α : Type} (extract : LogValue → Option α) (value : LogValue) : Option α :=
  if value.isMonostate then none else extract value

/-- Compare what is extracted; what is not joins the tail bucket. -/
def compareTyped {α : Type} (extract : LogValue → Option α) (cmp : α → α → Int)
    (lhs rhs : LogValue) : Int :=
  match extracted extract lhs, extracted extract rhs with
  | some a, some b => cmp a b
  | some _, none => -1
  | none, some _ => 1
  | none, none => 0

/-- `false < true`. -/
def compareBool : LogValue → LogValue → Int :=
  compareTyped toBool fun a b => threeWay a.toNat b.toNat

/-- Integer columns. -/
def compareInteger : LogValue → LogValue → Int := compareTyped toInt threeWay

/-- Floating and number columns. -/
def compareFloating : LogValue → LogValue → Int := compareTyped toDouble Double.threeWayDouble

/-- Time columns. -/
def compareTime : LogValue → LogValue → Int := compareTyped toMicros threeWay

/-- Empty slots go last; `none` when neither side is empty. -/
def compareMonostateOrder (lhs rhs : LogValue) : Option Int :=
  if lhs.isMonostate && rhs.isMonostate then some 0
  else if lhs.isMonostate then some 1
  else if rhs.isMonostate then some (-1)
  else none

variable (vformat : Bytes → LogValue → Bytes) (table : LogTable)

/-- Byte-wise compare: two strings directly, any other pair through the formatted cells. -/
def compareLogValuesBytewise (lhsRow rhsRow column : Nat) : Int :=
  match (table.getValue lhsRow column).asStringView,
    (table.getValue rhsRow column).asStringView with
  | some lhs, some rhs => threeWay (byteKey lhs) (byteKey rhs)
  | _, _ =>
    threeWay (byteKey (table.getFormattedValue vformat lhsRow column))
      (byteKey (table.getFormattedValue vformat rhsRow column))

/-- Enumeration columns: ranks, or bytes without a rank table. Slots without an id go last. -/
def compareEnum (lhsRow rhsRow column : Nat) (rank : Option EnumDictRank) : Int :=
  match table.getEnumValueId lhsRow column, table.getEnumValueId rhsRow column, rank with
  | some lhs, some rhs, some rank => threeWay (rank.rankOf lhs) (rank.rankOf rhs)
  | some _, some _, none => compareLogValuesBytewise vformat table lhsRow rhsRow column
  | none, none, _ => 0
  | none, some _, _ => 1
  | some _, none, _ => -1

/-- Columns of strings and of anything. -/
def compareString (lhsRow rhsRow column : Nat) : Int :=
  match compareMonostateOrder (table.getValue lhsRow column) (table.getValue rhsRow column) with
  | some order => order
  | none => compareLogValuesBytewise vformat table lhsRow rhsRow column

/-- Level columns: the severity, with unresolved slots last. -/
def compareLevel (lhsRow rhsRow column : Nat) : Int :=
  match table.getLevelForRow lhsRow column, table.getLevelForRow rhsRow column with
  | some lhs, some rhs => threeWay lhs.ordinal rhs.ordinal
  | none, none => 0
  | none, some _ => 1
  | some _, none => -1

/-- Three-way compare of two rows by one column. -/
def compareRows (lhsRow rhsRow columnIndex : Nat) (rank : Option EnumDictRank) : Int :=
  -- A row is equal to itself even where its value compares to nothing.
  if lhsRow = rhsRow then 0
  else
    match table.columns[columnIndex]? with
    | none => 0
    | some column =>
      let lhs := table.getValue lhsRow columnIndex
      let rhs := table.getValue rhsRow columnIndex
      match column.type with
      | .boolean => compareBool lhs rhs
      | .integer => compareInteger lhs rhs
      | .floating => compareFloating lhs rhs
      | .number => compareFloating lhs rhs
      | .time => compareTime lhs rhs
      | .enumeration => compareEnum vformat table lhsRow rhsRow columnIndex rank
      | .level => compareLevel table lhsRow rhsRow columnIndex
      | .string => compareString vformat table lhsRow rhsRow columnIndex
      | .any => compareString vformat table lhsRow rhsRow columnIndex

end Comparators

/-- The row's slot has a place in the column's type; without a column there is no type to miss. -/
def LogTable.Representable (table : LogTable) (columnIndex row : Nat) : Prop :=
  match table.columns[columnIndex]? with
  | none => True
  | some column =>
    match column.type with
    | .enumeration => (table.getEnumValueId row columnIndex).isSome
    | .level => (table.getLevelForRow row columnIndex).isSome
    | type => type.represents (table.getValue row columnIndex)

section Keys

/-- Bytes are ordered by their values. -/
theorem threeWay_byteKey_ordersBy :
    OrdersBy (fun a b : Bytes => threeWay (byteKey a) (byteKey b)) byteKey := by
  intro a b
  -- Both sides are one comparison, decided by two instances.
  show threeWay (byteKey a) (byteKey b) = _
  unfold threeWay
  congr

/-- The typed compare is the compare with a tail of what is extracted. -/
theorem compareTyped_eq {α : Type} (extract : LogValue → Option α) (cmp : α → α → Int)
    (lhs rhs : LogValue) :
    compareTyped extract cmp lhs rhs =
      tailCompare cmp (extracted extract lhs) (extracted extract rhs) := by
  unfold compareTyped
  cases extracted extract lhs <;> cases extracted extract rhs <;> rfl

/-- The typed compare orders rows by what their values extract to. -/
theorem compareTyped_ordersWithTail {α κ : Type} [LinearOrder κ] {cmp : α → α → Int} {key : α → κ}
    (extract : LogValue → Option α) (orders : OrdersBy cmp key) (value : Nat → LogValue) :
    OrdersWithTail (fun lhs rhs => compareTyped extract cmp (value lhs) (value rhs))
      fun row => (extracted extract (value row)).isSome = true := by
  simp only [compareTyped_eq]
  exact tailCompare_ordersWithTail orders fun row => extracted extract (value row)

/-- Boolean columns order rows by their `bool`. -/
theorem compareBool_ordersWithTail (value : Nat → LogValue) :
    OrdersWithTail (fun lhs rhs => compareBool (value lhs) (value rhs))
      fun row => ColumnType.boolean.represents (value row) = true := by
  have orders : OrdersBy (fun a b : Bool => threeWay a.toNat b.toNat) Bool.toNat := fun _ _ => rfl
  -- What can be extracted is exactly what the type represents.
  have extractable : ∀ v, (extracted toBool v).isSome = ColumnType.boolean.represents v := by
    intro v
    cases v <;> rfl
  have keyed := compareTyped_ordersWithTail toBool orders value
  simp only [extractable] at keyed
  exact keyed

/-- Integer columns order rows by their clamped `int64_t`. -/
theorem compareInteger_ordersWithTail (value : Nat → LogValue) :
    OrdersWithTail (fun lhs rhs => compareInteger (value lhs) (value rhs))
      fun row => ColumnType.integer.represents (value row) = true := by
  have orders : OrdersBy (fun a b : Int => threeWay a b) id := fun _ _ => rfl
  have extractable : ∀ v, (extracted toInt v).isSome = ColumnType.integer.represents v := by
    intro v
    cases v with
    | double number =>
      -- All doubles but NaN are clamped or truncated.
      simp only [extracted, LogValue.isMonostate, toInt, ColumnType.represents]
      cases number.isNaN with
      | true => rfl
      | false =>
        simp only [Bool.false_eq_true, if_false]
        split
        · rfl
        · split <;> rfl
    | _ => rfl
  have keyed := compareTyped_ordersWithTail toInt orders value
  simp only [extractable] at keyed
  exact keyed

/-- Floating and number columns order rows by their `double`, with NaN after the numbers. -/
theorem compareFloating_ordersWithTail (value : Nat → LogValue) :
    OrdersWithTail (fun lhs rhs => compareFloating (value lhs) (value rhs))
      fun row => ColumnType.floating.represents (value row) = true := by
  have extractable : ∀ v, (extracted toDouble v).isSome = ColumnType.floating.represents v := by
    intro v
    cases v <;> rfl
  have keyed := compareTyped_ordersWithTail toDouble Double.threeWayDouble_ordersBy value
  simp only [extractable] at keyed
  exact keyed

/-- Time columns order rows by their clamped microseconds. -/
theorem compareTime_ordersWithTail (value : Nat → LogValue) :
    OrdersWithTail (fun lhs rhs => compareTime (value lhs) (value rhs))
      fun row => ColumnType.time.represents (value row) = true := by
  have orders : OrdersBy (fun a b : Int => threeWay a b) id := fun _ _ => rfl
  -- What can be extracted is exactly what the type represents.
  have extractable : ∀ v, (extracted toMicros v).isSome = ColumnType.time.represents v := by
    intro v
    cases v <;> rfl
  have keyed := compareTyped_ordersWithTail toMicros orders value
  simp only [extractable] at keyed
  exact keyed

variable {vformat : Bytes → LogValue → Bytes} {table : LogTable} {columnIndex : Nat}

/-- A string cell of a column formats to itself. -/
theorem getFormattedValue_of_string {column : Column} {row : Nat} {text : Bytes}
    (inside : table.columns[columnIndex]? = some column)
    (held : (table.getValue row columnIndex).asStringView = some text) :
    table.getFormattedValue vformat row columnIndex = text := by
  unfold LogTable.getValue at held
  unfold LogTable.getFormattedValue
  cases ids : table.columnKeyIds[columnIndex]? with
  | none => simp [ids, LogValue.asStringView] at held
  | some ids' =>
    cases line : table.lines[row]? with
    | none => simp [ids, line, LogValue.asStringView] at held
    | some line' =>
      simp only [ids, line] at held
      simp only [inside]
      -- Only a string has string bytes, and a string is its own text.
      cases value : LogTable.firstValue line' table.context ids' with
      | string text' =>
        rw [value] at held
        exact Option.some.inj held
      | _ => simp [value, LogValue.asStringView] at held

/-- The byte-wise compare always compares the formatted cells. -/
theorem compareLogValuesBytewise_eq {column : Column}
    (inside : table.columns[columnIndex]? = some column) (lhsRow rhsRow : Nat) :
    compareLogValuesBytewise vformat table lhsRow rhsRow columnIndex =
      threeWay (byteKey (table.getFormattedValue vformat lhsRow columnIndex))
        (byteKey (table.getFormattedValue vformat rhsRow columnIndex)) := by
  unfold compareLogValuesBytewise
  split
  · -- Two strings are the formatted cells already.
    rename_i lhs rhs left right
    rw [getFormattedValue_of_string inside left, getFormattedValue_of_string inside right]
  · rfl

/-- Enumeration columns order rows by rank, or by bytes without a rank table. -/
theorem compareEnum_ordersWithTail {column : Column}
    (inside : table.columns[columnIndex]? = some column) (rank : Option EnumDictRank) :
    OrdersWithTail (fun lhs rhs => compareEnum vformat table lhs rhs columnIndex rank)
      fun row => (table.getEnumValueId row columnIndex).isSome = true := by
  cases rank with
  | some rank =>
    have orders : OrdersBy (fun a b => threeWay (rank.rankOf a) (rank.rankOf b)) rank.rankOf :=
      fun _ _ => rfl
    have keyed := tailCompare_ordersWithTail orders fun row => table.getEnumValueId row columnIndex
    refine keyed.congr fun lhs rhs => ?_
    unfold compareEnum
    cases table.getEnumValueId lhs columnIndex <;> cases table.getEnumValueId rhs columnIndex
      <;> rfl
  | none =>
    -- Without ranks the extract of a row with an id is its text.
    have keyed := tailCompare_ordersWithTail threeWay_byteKey_ordersBy fun row =>
      (table.getEnumValueId row columnIndex).map fun _ =>
        table.getFormattedValue vformat row columnIndex
    simp only [Option.isSome_map] at keyed
    refine keyed.congr fun lhs rhs => ?_
    unfold compareEnum
    cases table.getEnumValueId lhs columnIndex <;>
      cases table.getEnumValueId rhs columnIndex <;>
      first | rfl | exact compareLogValuesBytewise_eq inside lhs rhs

/-- Level columns order rows by severity. -/
theorem compareLevel_ordersWithTail :
    OrdersWithTail (fun lhs rhs => compareLevel table lhs rhs columnIndex)
      fun row => (table.getLevelForRow row columnIndex).isSome = true := by
  have orders : OrdersBy (fun a b : LogLevel => threeWay a.ordinal b.ordinal) LogLevel.ordinal :=
    fun _ _ => rfl
  have keyed := tailCompare_ordersWithTail orders fun row => table.getLevelForRow row columnIndex
  refine keyed.congr fun lhs rhs => ?_
  unfold compareLevel
  cases table.getLevelForRow lhs columnIndex <;> cases table.getLevelForRow rhs columnIndex <;> rfl

/-- String columns order rows by the bytes of their formatted cells. -/
theorem compareString_ordersWithTail {column : Column}
    (inside : table.columns[columnIndex]? = some column) :
    OrdersWithTail (fun lhs rhs => compareString vformat table lhs rhs columnIndex)
      fun row => (!(table.getValue row columnIndex).isMonostate) = true := by
  -- Cells without a value are the tail, the others are compared by their texts.
  have keyed := tailCompare_ordersWithTail threeWay_byteKey_ordersBy fun row =>
    if (table.getValue row columnIndex).isMonostate then none
    else some (table.getFormattedValue vformat row columnIndex)
  have extractable : ∀ row, (if (table.getValue row columnIndex).isMonostate then none
      else some (table.getFormattedValue vformat row columnIndex)).isSome =
        !(table.getValue row columnIndex).isMonostate := by
    intro row
    cases (table.getValue row columnIndex).isMonostate <;> rfl
  simp only [extractable] at keyed
  refine keyed.congr fun lhs rhs => ?_
  unfold compareString compareMonostateOrder
  cases left : (table.getValue lhs columnIndex).isMonostate <;>
    cases right : (table.getValue rhs columnIndex).isMonostate <;>
    first | rfl | exact compareLogValuesBytewise_eq inside lhs rhs

/-- In every column, rows are ordered by a key, and unrepresentable slots share its top. -/
theorem compareRows_ordersWithTail (vformat : Bytes → LogValue → Bytes) (table : LogTable)
    (columnIndex : Nat) (rank : Option EnumDictRank) :
    OrdersWithTail (fun lhs rhs => compareRows vformat table lhs rhs columnIndex rank)
      (table.Representable columnIndex) := by
  unfold compareRows LogTable.Representable
  cases inside : table.columns[columnIndex]? with
  | none =>
    -- Without a column all rows are equal.
    have orders : OrdersBy (fun _ _ : Nat => (0 : Int)) fun _ => () := fun _ _ => rfl
    simpa using orders.withoutTail fun _ => trivial
  | some column =>
    refine OrdersWithTail.shortcut ?_
    dsimp only
    -- One key for each kind of column, by what its comparator extracts.
    cases column.type with
    | boolean => exact compareBool_ordersWithTail fun row => table.getValue row columnIndex
    | integer => exact compareInteger_ordersWithTail fun row => table.getValue row columnIndex
    | floating => exact compareFloating_ordersWithTail fun row => table.getValue row columnIndex
    | number =>
      have same : ∀ v, ColumnType.floating.represents v = ColumnType.number.represents v := by
        intro v
        cases v <;> rfl
      have keyed := compareFloating_ordersWithTail fun row => table.getValue row columnIndex
      simp only [same] at keyed
      exact keyed
    | time => exact compareTime_ordersWithTail fun row => table.getValue row columnIndex
    | enumeration => exact compareEnum_ordersWithTail inside rank
    | level => exact compareLevel_ordersWithTail
    | string => exact compareString_ordersWithTail inside
    | any => exact compareString_ordersWithTail inside

/--
Comparing rows is a total preorder with one tail bucket.

The comparator is antisymmetric, its "less or equal" is transitive, and its "less" is a
strict weak order. Slots that have no place in the column's type are all equal, and after
every slot that has one. -/
theorem compareRows_preorder (vformat : Bytes → LogValue → Bytes) (table : LogTable)
    (columnIndex : Nat) (rank : Option EnumDictRank) :
    (∀ a b, compareRows vformat table a b columnIndex rank =
      -compareRows vformat table b a columnIndex rank) ∧
    (∀ a b c, compareRows vformat table a b columnIndex rank ≤ 0 →
      compareRows vformat table b c columnIndex rank ≤ 0 →
      compareRows vformat table a c columnIndex rank ≤ 0) ∧
    (IsStrictWeakOrder Nat fun a b => compareRows vformat table a b columnIndex rank < 0) ∧
    (∀ a b, ¬table.Representable columnIndex a → ¬table.Representable columnIndex b →
      compareRows vformat table a b columnIndex rank = 0) ∧
    (∀ a b, ¬table.Representable columnIndex a → table.Representable columnIndex b →
      0 < compareRows vformat table a b columnIndex rank) := by
  have ordered := compareRows_ordersWithTail vformat table columnIndex rank
  obtain ⟨κ, _, key, orders, _⟩ := id ordered
  exact ⟨orders.antisymm, fun a b c => orders.trans_le, orders.strictWeakOrder,
    fun a b => ordered.eq_of_tail, fun a b => ordered.pos_of_tail⟩

end Keys

end Loglib
