import Loglib.Basic.Bytes

/-! Numbers as decimal digits: as they are printed, padded to a width, and read back. -/

namespace Loglib

/-- The byte is one of the ten digits. -/
def isDecimalDigit (byte : Byte) : Bool := ascii '0' ≤ byte && byte ≤ ascii '9'

/-- The digit for a number below ten. -/
def decimalDigit (value : Nat) : Byte := UInt8.ofNat (48 + value)

/-- The number that a digit stands for. -/
def decimalDigitValue (byte : Byte) : Nat := byte.toNat - 48

/-- The number that digits stand for, the last one for the ones. -/
def digitsValue (text : Bytes) : Nat :=
  text.foldl (fun value byte => value * 10 + decimalDigitValue byte) 0

/-- A number without leading zeros. -/
def decimal (value : Nat) : Bytes := (Nat.toDigits 10 value).map ascii

/-- A number with zeros in front, up to a width. -/
def paddedDecimal (width value : Nat) : Bytes :=
  List.replicate (width - (decimal value).length) (ascii '0') ++ decimal value

section Digits

variable {value : Nat}

/-- The bytes of the digits are those from 48 to 57. -/
theorem isDecimalDigit_iff {byte : Byte} :
    isDecimalDigit byte = true ↔ 48 ≤ byte.toNat ∧ byte.toNat ≤ 57 := by
  simp only [isDecimalDigit, Bool.and_eq_true, decide_eq_true_eq, UInt8.le_iff_toNat_le]
  exact Iff.rfl

/-- The byte of a small number. -/
theorem toNat_decimalDigit (small : value < 10) : (decimalDigit value).toNat = 48 + value := by
  rw [decimalDigit, UInt8.toNat_ofNat', Nat.mod_eq_of_lt (by omega)]

/-- A digit is read as it was written. -/
@[simp] theorem decimalDigitValue_decimalDigit (small : value < 10) :
    decimalDigitValue (decimalDigit value) = value := by
  rw [decimalDigitValue, toNat_decimalDigit small]
  omega

/-- What is written for a small number is a digit. -/
theorem isDecimalDigit_decimalDigit (small : value < 10) :
    isDecimalDigit (decimalDigit value) = true := by
  rw [isDecimalDigit_iff, toNat_decimalDigit small]
  omega

/-- A digit stands for a number below ten. -/
theorem decimalDigitValue_lt {byte : Byte} (digit : isDecimalDigit byte = true) :
    decimalDigitValue byte < 10 := by
  have bounds := isDecimalDigit_iff.mp digit
  rw [decimalDigitValue]
  omega

/-- A digit is written as it was read. -/
theorem decimalDigit_decimalDigitValue {byte : Byte} (digit : isDecimalDigit byte = true) :
    decimalDigit (decimalDigitValue byte) = byte := by
  have bounds := isDecimalDigit_iff.mp digit
  apply UInt8.toNat_inj.mp
  rw [toNat_decimalDigit (decimalDigitValue_lt digit), decimalDigitValue]
  omega

/-- The characters of the standard printer are the digits. -/
theorem ascii_digitChar (small : value < 10) :
    ascii (Nat.digitChar value) = decimalDigit value := by
  interval_cases value <;> rfl

end Digits

section Values

variable {width value : Nat}

/-- A digit behind a text adds the ones. -/
theorem digitsValue_append_digit (text : Bytes) (byte : Byte) :
    digitsValue (text ++ [byte]) = digitsValue text * 10 + decimalDigitValue byte := by
  simp [digitsValue]

/-- Zeros in front change nothing. -/
theorem digitsValue_zeros (count : Nat) (text : Bytes) :
    digitsValue (List.replicate count (ascii '0') ++ text) = digitsValue text := by
  induction count with
  | zero => rfl
  | succ count ih =>
    rw [← ih]
    simp [List.replicate_succ, digitsValue, decimalDigitValue, ascii]

/-- One digit for a small number, and else the ones behind the rest. -/
theorem decimal_eq (value : Nat) :
    decimal value = if value < 10 then [decimalDigit value]
      else decimal (value / 10) ++ [decimalDigit (value % 10)] := by
  unfold decimal
  rw [Nat.toDigits_eq_if (by omega)]
  split
  · rename_i small
    simp [ascii_digitChar small]
  · simp [ascii_digitChar (Nat.mod_lt value (by omega))]

/-- A number is printed with at least one digit. -/
theorem decimal_ne_nil (value : Nat) : decimal value ≠ [] := by
  rw [decimal_eq]
  split <;> simp

/-- A number is printed with digits alone. -/
theorem isDecimalDigit_of_mem_decimal {byte : Byte} (member : byte ∈ decimal value) :
    isDecimalDigit byte = true := by
  -- The digits of the quotient, and behind them the last one.
  induction value using Nat.strong_induction_on with
  | _ value ih =>
    rw [decimal_eq] at member
    split at member
    · rename_i small
      obtain rfl := List.mem_singleton.mp member
      exact isDecimalDigit_decimalDigit small
    · rename_i large
      rcases List.mem_append.mp member with front | last
      · exact ih (value / 10) (by omega) front
      · obtain rfl := List.mem_singleton.mp last
        exact isDecimalDigit_decimalDigit (Nat.mod_lt value (by omega))

/-- A number is read as it was printed. -/
@[simp] theorem digitsValue_decimal (value : Nat) : digitsValue (decimal value) = value := by
  -- The digits of the quotient, and behind them the last one.
  induction value using Nat.strong_induction_on with
  | _ value ih =>
    rw [decimal_eq]
    split
    · rename_i small
      simp [digitsValue, decimalDigitValue_decimalDigit small]
    · rename_i large
      rw [digitsValue_append_digit, ih (value / 10) (by omega),
        decimalDigitValue_decimalDigit (Nat.mod_lt value (by omega))]
      omega

/-- Different numbers are printed differently. -/
theorem decimal_injective : Function.Injective decimal := fun first second same => by
  rw [← digitsValue_decimal first, same, digitsValue_decimal]

/-- A number below a power of ten is printed with at most that many digits. -/
theorem length_decimal_le (some_ : 0 < width) (small : value < 10 ^ width) :
    (decimal value).length ≤ width := by
  induction width generalizing value with
  | zero => omega
  | succ width ih =>
    rw [decimal_eq]
    split
    · simp
    · -- The last digit is written behind the others, which are one fewer.
      rename_i large
      have rest : value / 10 < 10 ^ width := by
        rw [pow_succ] at small
        omega
      have positive : 0 < width := by
        by_contra none_
        obtain rfl : width = 0 := by omega
        omega
      have shorter := ih positive rest
      rw [List.length_append, List.length_singleton]
      omega

/-- A number that fits has the width. -/
theorem length_paddedDecimal (some_ : 0 < width) (small : value < 10 ^ width) :
    (paddedDecimal width value).length = width := by
  have fits := length_decimal_le some_ small
  rw [paddedDecimal, List.length_append, List.length_replicate]
  omega

/-- Padding is by digits. -/
theorem isDecimalDigit_of_mem_paddedDecimal {byte : Byte}
    (member : byte ∈ paddedDecimal width value) :
    isDecimalDigit byte = true := by
  rcases List.mem_append.mp member with zero | digit
  · obtain rfl := List.eq_of_mem_replicate zero
    decide
  · exact isDecimalDigit_of_mem_decimal digit

/-- A padded number is read as it was printed. -/
@[simp] theorem digitsValue_paddedDecimal (width value : Nat) :
    digitsValue (paddedDecimal width value) = value := by
  rw [paddedDecimal, digitsValue_zeros, digitsValue_decimal]

/-- One digit more is that of the ones. -/
theorem paddedDecimal_succ (some_ : 0 < width) (value : Nat) :
    paddedDecimal (width + 1) value = paddedDecimal width
      (value / 10) ++ [decimalDigit (value % 10)] := by
  obtain ⟨rest, rfl⟩ : ∃ rest, width = rest + 1 := ⟨width - 1, by omega⟩
  rw [paddedDecimal, paddedDecimal, decimal_eq value]
  split
  · -- The number in front is zero, which is printed as one zero.
    rename_i small
    have front : value / 10 = 0 := by omega
    have ones : value % 10 = value := Nat.mod_eq_of_lt small
    have zero : decimal 0 = [ascii '0'] := rfl
    rw [front, ones, zero]
    simp [List.replicate_succ']
  · simp [List.append_assoc]

/-- Digits stand for a number below the power of ten of their count. -/
theorem digitsValue_lt {digits : Bytes} (all : digits.all isDecimalDigit = true) :
    digitsValue digits < 10 ^ digits.length := by
  -- A last digit multiplies what is in front by ten.
  induction digits using List.reverseRecOn with
  | nil => simp [digitsValue]
  | append_singleton front last ih =>
    rw [List.all_append, Bool.and_eq_true] at all
    have small := ih all.1
    have digit : decimalDigitValue last < 10 := decimalDigitValue_lt (by simpa using all.2)
    rw [digitsValue_append_digit, List.length_append, List.length_singleton, pow_succ]
    omega

/-- Digits are what is printed for their number at their width. -/
theorem paddedDecimal_digitsValue {digits : Bytes} (some_ : digits ≠ [])
    (all : digits.all isDecimalDigit = true) :
    paddedDecimal digits.length (digitsValue digits) = digits := by
  induction digits using List.reverseRecOn with
  | nil => exact absurd rfl some_
  | append_singleton front last ih =>
    rw [List.all_append, Bool.and_eq_true] at all
    have isDigit : isDecimalDigit last = true := by simpa using all.2
    have digit := decimalDigitValue_lt isDigit
    -- One digit alone is its own value.
    by_cases alone : front = []
    · subst alone
      have value : digitsValue [last] = decimalDigitValue last := by simp [digitsValue]
      have printed : decimal (decimalDigitValue last) = [last] := by
        rw [decimal_eq, if_pos digit, decimalDigit_decimalDigitValue isDigit]
      rw [List.nil_append, value, paddedDecimal, printed]
      rfl
    · -- Dividing by ten takes the last digit off again.
      have ones : (digitsValue front * 10 + decimalDigitValue last) % 10 =
          decimalDigitValue last := by omega
      have tens : (digitsValue front * 10 + decimalDigitValue last) / 10 = digitsValue front := by
        omega
      rw [digitsValue_append_digit, List.length_append, List.length_singleton,
        paddedDecimal_succ (List.length_pos_iff.mpr alone), ones, tens, ih alone all.1,
        decimalDigit_decimalDigitValue isDigit]

end Values

end Loglib
