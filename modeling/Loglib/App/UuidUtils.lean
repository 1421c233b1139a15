import Loglib.Basic.IndentedJson

/-! What the code relies on of uuids. -/

namespace Loglib

/-- The reading of uuids that Qt provides. -/
class QUuid where
  /-- `QUuid::fromString`: the bits of the uuid, all zero where the text is none. -/
  fromString : Utf16 → BitVec 128
  /-- An empty text is no uuid. -/
  fromString_nil : fromString [] = 0

/-- A uuid is read from the text, and it is not null. -/
def LooksLikeUuid [QUuid] (candidate : Utf16) : Bool := QUuid.fromString candidate != 0

/-- A text that looks like a uuid is not empty. -/
theorem filled_of_looksLikeUuid [QUuid] {uuid : Utf16} (is : LooksLikeUuid uuid = true) :
    uuid ≠ [] := by
  rintro rfl
  simp [LooksLikeUuid, QUuid.fromString_nil] at is

/-- The form that uuids are printed in. -/
def uuidForm : List Char := "xxxxxxxx-xxxx-xxxx-xxxx-xxxxxxxxxxxx".toList

/-- The value of a hexadecimal digit as uuids are printed. -/
def hexUnit (unit : UInt16) : Option Nat :=
  if 0x30 ≤ unit ∧ unit ≤ 0x39 then some (unit.toNat - 0x30)
  else if 0x61 ≤ unit ∧ unit ≤ 0x66 then some (unit.toNat - 0x61 + 10)
  else none

/-- The digits of a text in the printed form. -/
def printedDigits : Utf16 → List Char → Option (List Nat)
  | [], [] => some []
  | unit :: rest, place :: form => do
    let later ← printedDigits rest form
    if place = '-' then if unit = 0x2D then some later else none
    else (hexUnit unit).map (· :: later)
  | _, _ => none

/-- The reading of texts in the printed form, and of no others. -/
@[reducible] def printedUuids : QUuid where
  fromString text := (printedDigits text uuidForm).elim 0 fun digits =>
    .ofNat 128 (digits.foldl (16 * · + ·) 0)
  fromString_nil := rfl

/-- The printed uuid that repeats one digit. -/
def uuidOf (digit : Char) : Utf16 :=
  uuidForm.map fun character => UInt16.ofNat (if character = '-' then '-' else digit).toNat

end Loglib
