import Mathlib

/-! Byte strings, ASCII literals, and the case folding shared by the key and level tables. -/

namespace Loglib

/-- One byte of a `std::string`. -/
abbrev Byte := UInt8

/-- The bytes of a `std::string` or `std::string_view`. -/
abbrev Bytes := List Byte

/-- The byte a character literal of the source stands for. -/
def ascii (c : Char) : Byte := UInt8.ofNat c.toNat

/-- The bytes a string literal of the source stands for. -/
def bytes (text : String) : Bytes := text.toList.map ascii

/-- The byte that ends a line. -/
def newline : Byte := ascii '\n'

/-- A capital ASCII letter becomes its small letter, and every other byte is left alone. -/
def foldAscii (c : Byte) : Byte :=
  if ascii 'A' ≤ c ∧ c ≤ ascii 'Z' then c + 32 else c

/-- Case-insensitive equality on 7-bit ASCII. -/
def equalsIgnoreCaseAscii (a b : Bytes) : Bool :=
  -- The size check comes first, so the zip never drops a byte.
  a.length == b.length && (a.zip b).all fun pair => foldAscii pair.1 == foldAscii pair.2

/-- The values of the bytes, whose lexicographic order is the order of `std::string_view`. -/
def byteKey (text : Bytes) : List Nat := text.map UInt8.toNat

/-- Two byte strings with the same byte values are the same string. -/
theorem byteKey_injective : Function.Injective byteKey :=
  List.map_injective_iff.mpr fun _ _ same => UInt8.toNat_inj.mp same

end Loglib
