import Loglib.Table.LogTable

/-! Predicates on the rows of a table, one kind for each kind of filter leaf. -/

namespace Loglib

/-- A set of strings, matched by dictionary id where the ids are known. -/
structure EnumRowPredicate where
  columnIndex : Nat
  /-- Selected ids of the dictionary the predicate was built from. -/
  selectedIds : List Bool
  /-- Selected values without an id at construction. -/
  selectedStrings : List Bytes
  fastPathArmed : Bool
  allResolved : Bool
  emptySelection : Bool
deriving DecidableEq, Repr

namespace EnumRowPredicate

/-- Nothing is selected on a column. -/
def ofColumn (columnIndex : Nat) : EnumRowPredicate where
  columnIndex := columnIndex
  selectedIds := []
  selectedStrings := []
  fastPathArmed := false
  allResolved := false
  emptySelection := false

/-- One distinct selected value: its id is armed and counted, or the value joins the strings. -/
def select (dictionary : EnumDictionary) (built : EnumRowPredicate × Nat) (value : Bytes) :
    EnumRowPredicate × Nat :=
  let (predicate, resolvedCount) := built
  let unresolved := { predicate with selectedStrings := predicate.selectedStrings ++ [value] }
  match dictionary.find value with
  | none => (unresolved, resolvedCount)
  | some id =>
    -- An id past the size that the bits were made for counts as unresolved.
    if predicate.selectedIds.length ≤ id then (unresolved, resolvedCount)
    else
      ({ predicate with selectedIds := predicate.selectedIds.set id true, fastPathArmed := true },
        resolvedCount + 1)

/-- The predicate of a selection, built from the column's dictionary if it has one. -/
def ofSelection (columnIndex : Nat) (selectedValues : List Bytes)
    (dictionary : Option EnumDictionary) : EnumRowPredicate :=
  if selectedValues.isEmpty then { ofColumn columnIndex with emptySelection := true }
  else
    let distinct := selectedValues.dedup
    match dictionary with
    -- Without a dictionary the texts themselves are compared.
    | none => { ofColumn columnIndex with selectedStrings := distinct }
    | some dictionary =>
      let sized : EnumRowPredicate :=
        { ofColumn columnIndex with selectedIds := List.replicate dictionary.size false }
      let (built, resolvedCount) := distinct.foldl (select dictionary) (sized, 0)
      { built with allResolved := resolvedCount == distinct.length }

/-- The string set is asked about the row's value. -/
def matchesString (predicate : EnumRowPredicate) (table : LogTable) (row : Nat) : Bool :=
  if predicate.selectedStrings.isEmpty then false
  else
    match table.getValue row predicate.columnIndex with
    | .string text => predicate.selectedStrings.contains text
    | _ => false

/-- The row's value is one of the selected strings, by id where the id is known. -/
def matchesRow (predicate : EnumRowPredicate) (table : LogTable) (row : Nat) : Bool :=
  if predicate.emptySelection then false
  else if predicate.fastPathArmed then
    match table.getEnumValueId row predicate.columnIndex with
    | some id =>
      match predicate.selectedIds[id]? with
      | some selected => selected
      | none => if predicate.allResolved then false else predicate.matchesString table row
    | none => predicate.matchesString table row
  else predicate.matchesString table row

end EnumRowPredicate

/-- An inclusive range of epoch microseconds. -/
structure TimeRangeRowPredicate where
  columnIndex : Nat
  rangeBegin : Int64
  rangeEnd : Int64
deriving DecidableEq, Repr

/-- The row's value is a time in the range. -/
def TimeRangeRowPredicate.matchesRow (predicate : TimeRangeRowPredicate) (table : LogTable)
    (row : Nat) : Bool :=
  let rangeBegin := predicate.rangeBegin.toInt
  let rangeEnd := predicate.rangeEnd.toInt
  if rangeEnd < rangeBegin then false
  else
    match table.getValue row predicate.columnIndex with
    | .timestamp microseconds =>
      rangeBegin ≤ microseconds.toInt && microseconds.toInt ≤ rangeEnd
    | .int64 value => rangeBegin ≤ value.toInt && value.toInt ≤ rangeEnd
    | .uint64 value =>
      if 2 ^ 63 ≤ value.toNat then false
      else
        -- Negative bounds clamp to zero.
        rangeBegin.toNat ≤ value.toNat && value.toNat ≤ rangeEnd.toNat
    | _ => false

/-- An inclusive range of doubles, open where a bound is missing. -/
structure NumericRangeRowPredicate where
  columnIndex : Nat
  min : Option Double
  max : Option Double
deriving DecidableEq, Repr

namespace NumericRangeRowPredicate

/-- The range of two bounds; a NaN bound counts as missing. -/
def ofBounds (columnIndex : Nat) (minValue maxValue : Option Double) :
    NumericRangeRowPredicate where
  columnIndex := columnIndex
  min := minValue.filter fun bound => !bound.isNaN
  max := maxValue.filter fun bound => !bound.isNaN

/-- The number of a value, if it has one. -/
def asDouble : LogValue → Option Double
  | .double value => if value.isNaN then none else some value
  | .int64 value => some (.ofInt value.toInt)
  | .uint64 value => some (.ofInt value.toNat)
  | _ => none

/-- The row's value is a number in the range. -/
def matchesRow (predicate : NumericRangeRowPredicate) (table : LogTable) (row : Nat) : Bool :=
  match asDouble (table.getValue row predicate.columnIndex) with
  | none => false
  | some numeric =>
    if predicate.min.any fun bound => numeric.lt bound then false
    else if predicate.max.any fun bound => bound.lt numeric then false
    else true

end NumericRangeRowPredicate

/-- Which of the two booleans are selected. -/
structure BoolRowPredicate where
  columnIndex : Nat
  includeTrue : Bool
  includeFalse : Bool
deriving DecidableEq, Repr

/-- The row's value is a selected boolean. -/
def BoolRowPredicate.matchesRow (predicate : BoolRowPredicate) (table : LogTable) (row : Nat) :
    Bool :=
  if !predicate.includeTrue && !predicate.includeFalse then false
  else
    match table.getValue row predicate.columnIndex with
    | .bool value => if value then predicate.includeTrue else predicate.includeFalse
    | _ => false

/-- A callback on the text of a cell, if one is set. -/
structure CallbackStringRowPredicate where
  columnIndex : Nat
  matchText : Option (Bytes → Bool)

/-- The callback accepts the row's text. -/
def CallbackStringRowPredicate.matchesRow (predicate : CallbackStringRowPredicate)
    (vformat : Bytes → LogValue → Bytes) (table : LogTable) (row : Nat) : Bool :=
  match predicate.matchText with
  | none => false
  | some accepts => accepts (table.getValueOrFormatted vformat row predicate.columnIndex)

/-- The kinds of predicate a filter leaf holds. -/
inductive RowPredicate where
  | enum (predicate : EnumRowPredicate)
  | timeRange (predicate : TimeRangeRowPredicate)
  | numericRange (predicate : NumericRangeRowPredicate)
  | bool (predicate : BoolRowPredicate)
  | callbackString (predicate : CallbackStringRowPredicate)

/-- `MatchesRow`: dispatch to the predicate's kind. -/
def matchesRow (vformat : Bytes → LogValue → Bytes) (table : LogTable) (row : Nat) :
    RowPredicate → Bool
  | .enum predicate => predicate.matchesRow table row
  | .timeRange predicate => predicate.matchesRow table row
  | .numericRange predicate => predicate.matchesRow table row
  | .bool predicate => predicate.matchesRow table row
  | .callbackString predicate => predicate.matchesRow vformat table row

/-! How exact the time range is. -/

namespace TimeRangeRowPredicate

/-- The row's value converts to an instant in the range. -/
def InRange (predicate : TimeRangeRowPredicate) (value : LogValue) : Prop :=
  ∃ instant, value.asEpochMicroseconds = some instant ∧ predicate.rangeBegin.toInt ≤ instant ∧
    instant ≤ predicate.rangeEnd.toInt

/-- An unsigned zero meets a range that ends before it. -/
def LetsZeroPass (predicate : TimeRangeRowPredicate) (value : LogValue) : Prop :=
  value = .uint64 0 ∧ predicate.rangeBegin.toInt ≤ predicate.rangeEnd.toInt ∧
    predicate.rangeEnd.toInt < 0

/-- The predicate accepts the instants in its range, and an unsigned zero that meets a
range before it. -/
theorem matchesRow_iff (predicate : TimeRangeRowPredicate) (table : LogTable) (row : Nat) :
    predicate.matchesRow table row = true ↔
      predicate.InRange (table.getValue row predicate.columnIndex) ∨
        predicate.LetsZeroPass (table.getValue row predicate.columnIndex) := by
  simp only [matchesRow, InRange, LetsZeroPass]
  generalize table.getValue row predicate.columnIndex = value
  generalize predicate.rangeBegin.toInt = first
  generalize predicate.rangeEnd.toInt = last
  split_ifs with reversed
  · -- No instant lies in a reversed range.
    have nothing : ¬∃ instant, value.asEpochMicroseconds = some instant ∧ first ≤ instant ∧
        instant ≤ last := by
      rintro ⟨instant, -, above, below⟩
      omega
    simp only [nothing, false_or, false_iff]
    omega
  · cases value with
    | uint64 value =>
      have zero : LogValue.uint64 value = .uint64 0 ↔ value.toNat = 0 := by
        rw [LogValue.uint64.injEq, ← UInt64.toNat_inj, UInt64.toNat_zero]
      rw [zero]
      by_cases large : 2 ^ 63 ≤ value.toNat
      · have nothing : ¬value.toNat < 2 ^ 63 := by omega
        simp only [LogValue.asEpochMicroseconds, if_pos large, if_neg nothing, reduceCtorEq,
          false_and, exists_false,
          Bool.false_eq_true, false_or, false_iff]
        omega
      · -- The clamped bounds let zero pass where the range ends below it.
        have small : value.toNat < 2 ^ 63 := by omega
        simp only [LogValue.asEpochMicroseconds, if_neg large, if_pos small, Option.some.injEq,
          exists_eq_left',
          Bool.and_eq_true, decide_eq_true_eq]
        omega
    | int64 value => simp [LogValue.asEpochMicroseconds]
    | timestamp microseconds => simp [LogValue.asEpochMicroseconds]
    | string text => simp [LogValue.asEpochMicroseconds]
    | double value => simp [LogValue.asEpochMicroseconds]
    | bool value => simp [LogValue.asEpochMicroseconds]
    | monostate => simp [LogValue.asEpochMicroseconds]

/-- A zero that is let pass is not in the range. -/
theorem not_inRange_of_letsZeroPass {predicate : TimeRangeRowPredicate} {value : LogValue}
    (passes : predicate.LetsZeroPass value) :
    ¬predicate.InRange value := by
  obtain ⟨rfl, -, before⟩ := passes
  rintro ⟨instant, converted, -, below⟩
  obtain rfl : (0 : Int) = instant := Option.some.inj converted
  omega

/-- The predicate accepts the instants in its range, unless an unsigned zero meets a range that ends
before it. -/
theorem matchesRow_inRange_iff (predicate : TimeRangeRowPredicate) (table : LogTable) (row : Nat) :
    (predicate.matchesRow table row = true ↔
      predicate.InRange (table.getValue row predicate.columnIndex)) ↔
      ¬(table.getValue row predicate.columnIndex = .uint64 0 ∧
        predicate.rangeBegin.toInt ≤ predicate.rangeEnd.toInt ∧ predicate.rangeEnd.toInt < 0) := by
  rw [matchesRow_iff]
  constructor
  · intro exact_ passes
    exact not_inRange_of_letsZeroPass passes (exact_.mp (.inr passes))
  · intro rejected
    exact ⟨fun accepted => accepted.resolve_right rejected, .inl⟩

/-- A table with one cell. -/
def cellTable (slot : CompactLogValue) : LogTable :=
  { LogTable.ofConfiguration ⟨[], ⟨-1, false⟩⟩ with
    lines := [.ofField 0 0 0 slot]
    columnKeyIds := [[some 0]] }

/-- An unsigned zero passes a range of negative instants. -/
theorem unsignedZero_accepted :
    (⟨0, -5, -1⟩ : TimeRangeRowPredicate).matchesRow (cellTable (.uint64 0)) 0 = true ∧
      ¬(⟨0, -5, -1⟩ : TimeRangeRowPredicate).InRange ((cellTable (.uint64 0)).getValue 0 0) := by
  have value : (cellTable (.uint64 0)).getValue 0 0 = .uint64 0 := by decide
  refine ⟨by decide, ?_⟩
  rw [value]
  exact not_inRange_of_letsZeroPass ⟨rfl, by decide, by decide⟩

end TimeRangeRowPredicate

end Loglib
