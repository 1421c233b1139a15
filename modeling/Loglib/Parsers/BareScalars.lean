import Loglib.Basic.DecimalText
import Loglib.Table.LogValue

/-! Values without quotes: the type that a text has, and the text that a number is written as. -/

namespace Loglib

/-- Numbers and instants as text, by the libraries that print and read them. -/
structure ScalarText where
  /-- `fmt::format` of a `double`. -/
  formatDouble : Double → Bytes
  /-- `TryParseFiniteDouble`. -/
  tryParseFiniteDouble : Bytes → Option Double
  /-- `TimeStampToDateTimeString`. -/
  timeStampToDateTimeString : Int64 → Bytes

/-- `fmt::format` of an integer. -/
def decimalInt (value : Int) : Bytes :=
  if value < 0 then ascii '-' :: decimal value.natAbs else decimal value.natAbs

/-- `std::from_chars` of a `uint64_t` that takes the whole text. -/
def wholeUint64 (text : Bytes) : Option UInt64 :=
  if text ≠ [] ∧ text.all isDecimalDigit ∧
    digitsValue text < 2 ^ 64 then some (UInt64.ofNat (digitsValue text)) else none

/-- `std::from_chars` of an `int64_t` that takes the whole text, of which the first byte
is the sign. -/
def wholeNegativeInt64 (text : Bytes) : Option Int64 :=
  let digits := text.drop 1
  if digits ≠ [] ∧ digits.all isDecimalDigit ∧ digitsValue digits ≤ 2 ^ 63 then
    some (Int64.ofInt (-(digitsValue digits : Int)))
  else none

/-- The integer that a text is. -/
def bareInteger (raw : Bytes) : Option LogValue :=
  match raw.head? with
  | none => none
  | some first =>
    if first = ascii '-' then (wholeNegativeInt64 raw).map .int64
    else if isDecimalDigit first then (wholeUint64 raw).map .uint64
    else none

/-- The double that a text is. -/
def bareDouble (scalars : ScalarText) (raw : Bytes) : Option LogValue :=
  match raw.head? with
  | none => none
  | some first =>
    if first = ascii '-' ∨ first = ascii '+' ∨ first = ascii '.' ∨ isDecimalDigit first then
      (scalars.tryParseFiniteDouble raw).map .double
    else none

/-- `ClassifyBareScalar`. -/
def classifyBareScalar (scalars : ScalarText) (raw : Bytes) : LogValue :=
  if raw = [] then .monostate
  else if raw = bytes "true" then .bool true
  else if raw = bytes "false" then .bool false
  else ((bareInteger raw).orElse fun _ => bareDouble scalars raw).getD (.string raw)

/-- The integer that a value is. -/
def LogValue.asInteger : LogValue → Option Int
  | .int64 value => some value.toInt
  | .uint64 value => some value.toNat
  | _ => none

section Integers

variable {value : Int}

/-- Digits alone are an unsigned integer. -/
theorem wholeUint64_decimal {value : Nat} (fits : value < 2 ^ 64) :
    wholeUint64 (decimal value) = some (UInt64.ofNat value) := by
  have digits : (decimal value).all isDecimalDigit = true :=
    List.all_eq_true.mpr fun _ member => isDecimalDigit_of_mem_decimal member
  rw [wholeUint64, if_pos ⟨decimal_ne_nil value, digits, by rwa [digitsValue_decimal]⟩,
    digitsValue_decimal]

/-- A printed integer starts with its sign or a digit. -/
theorem head?_decimal (value : Nat) :
    ∃ first, (decimal value).head? = some first ∧ isDecimalDigit first = true := by
  obtain ⟨first, rest, cut⟩ := List.exists_cons_of_ne_nil (decimal_ne_nil value)
  have member : first ∈ decimal value := by
    rw [cut]
    exact List.mem_cons_self
  exact ⟨first, by rw [cut]; rfl, isDecimalDigit_of_mem_decimal member⟩

/-- A printed integer is read as an integer. -/
theorem bareInteger_decimalInt (low : -2 ^ 63 ≤ value) (high : value < 2 ^ 64) :
    ∃ read, bareInteger (decimalInt value) = some read ∧ read.asInteger = some value := by
  unfold decimalInt
  split
  · -- A negative number is read as a signed one.
    rename_i negative
    have digits : (decimal value.natAbs).all isDecimalDigit = true :=
      List.all_eq_true.mpr fun _ member => isDecimalDigit_of_mem_decimal member
    refine ⟨.int64 (Int64.ofInt value), ?_, ?_⟩
    · have same : -((value.natAbs : Nat) : Int) = value := by omega
      rw [bareInteger, List.head?_cons]
      simp only [if_true, wholeNegativeInt64, List.drop_succ_cons, List.drop_zero]
      rw [if_pos ⟨decimal_ne_nil _, digits, by rw [digitsValue_decimal]; omega⟩,
        digitsValue_decimal, same]
      rfl
    · rw [LogValue.asInteger, Int64.toInt_ofInt_of_le low (by omega)]
  · -- Any other begins with a digit and is read as an unsigned one.
    rename_i nonnegative
    obtain ⟨first, head, digit⟩ := head?_decimal value.natAbs
    have unsigned : first ≠ ascii '-' := by
      rintro rfl
      exact absurd digit (by decide)
    refine ⟨.uint64 (UInt64.ofNat value.natAbs), ?_, ?_⟩
    · rw [bareInteger, head]
      simp only [if_neg unsigned, digit, if_true]
      rw [wholeUint64_decimal (by omega)]
      rfl
    · rw [LogValue.asInteger, UInt64.toNat_ofNat_of_lt'
        (show value.natAbs < UInt64.size by simp only [UInt64.size]; omega)]
      congr 1
      omega

/-- What is read as an integer is one. -/
theorem bareInteger_asInteger {raw : Bytes} {read : LogValue}
    (integer : bareInteger raw = some read) :
    ∃ number, read.asInteger = some number := by
  unfold bareInteger at integer
  -- Signed where the number fits, else unsigned.
  split at integer
  · cases integer
  · split at integer
    · obtain ⟨value, -, rfl⟩ := Option.map_eq_some_iff.mp integer
      exact ⟨_, rfl⟩
    · split at integer
      · obtain ⟨value, -, rfl⟩ := Option.map_eq_some_iff.mp integer
        exact ⟨_, rfl⟩
      · cases integer

/-- What is read as a double is one. -/
theorem bareDouble_eq {scalars : ScalarText} {raw : Bytes} {read : LogValue}
    (double : bareDouble scalars raw = some read) :
    ∃ value, read = .double value := by
  unfold bareDouble at double
  -- A text that is no number reads as nothing.
  split at double
  · cases double
  · split at double
    · obtain ⟨value, -, rfl⟩ := Option.map_eq_some_iff.mp double
      exact ⟨value, rfl⟩
    · cases double

end Integers

end Loglib
