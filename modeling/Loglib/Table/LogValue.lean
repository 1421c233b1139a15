import Loglib.Numeric.Binary64
import Loglib.Table.EnumDictionary

/-! Field values as the accessors return them, and the compact slots the lines store. -/

namespace Loglib

/-- One field's value. The source's `string_view` and `string` alternatives count as one kind. -/
inductive LogValue where
  | string (text : Bytes)
  | int64 (value : Int64)
  | uint64 (value : UInt64)
  | double (value : Double)
  | bool (value : Bool)
  | timestamp (microseconds : Int64)
  | monostate
deriving DecidableEq, Repr

namespace LogValue

/-- `std::holds_alternative<std::monostate>`. -/
def isMonostate : LogValue → Bool
  | .monostate => true
  | _ => false

/-- The bytes of a string value. -/
def asStringView : LogValue → Option Bytes
  | .string text => some text
  | _ => none

/-- Epoch microseconds of a time-shaped value. -/
def asEpochMicroseconds : LogValue → Option Int
  | .timestamp microseconds => some microseconds.toInt
  | .int64 value => some value.toInt
  | .uint64 value => if value.toNat < 2 ^ 63 then some value.toNat else none
  | _ => none

end LogValue

/-- Per-field storage. Strings are an offset and a 32-bit length into bytes of the line's source. -/
inductive CompactLogValue where
  | monostate
  | mmapSlice (offset : Nat) (length : UInt32)
  | ownedString (offset : Nat) (length : UInt32)
  | dictRef (id : EnumValueId)
  | int64 (value : Int64)
  | uint64 (value : UInt64)
  | double (value : Double)
  | bool (value : Bool)
  | timestamp (microseconds : Int64)
deriving DecidableEq, Repr

namespace CompactLogValue

/-- The slot refers to a dictionary. -/
def isDictRef : CompactLogValue → Bool
  | .dictRef _ => true
  | _ => false

/-- The slot holds string bytes of its source. -/
def isRawString : CompactLogValue → Bool
  | .mmapSlice _ _ => true
  | .ownedString _ _ => true
  | _ => false

end CompactLogValue

end Loglib
