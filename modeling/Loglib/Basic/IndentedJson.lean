import Loglib.Basic.Bytes

/-! JSON documents and their indented text. -/

namespace Loglib

/-- UTF-16 code units. -/
abbrev Utf16 := List UInt16

/-- Comparing the units decides equality. -/
instance Utf16.instLawfulBEq : LawfulBEq Utf16 := inferInstance

/-- A JSON document with whole numbers; an object has its members in the order of the keys. -/
inductive Json where
  | null
  | bool (value : Bool)
  | number (value : Int)
  | text (units : Utf16)
  | array (items : List Json)
  | object (members : List (String × Json))

namespace Json

/-- A hexadecimal digit. -/
def hexDigit (digit : Nat) : Byte := (bytes "0123456789abcdef").getD digit 0

/-- A code unit as an escape sequence. -/
def escapeUnit (unit : Nat) : Bytes :=
  bytes "\\u" ++ [hexDigit (unit / 4096 % 16), hexDigit (unit / 256 % 16),
    hexDigit (unit / 16 % 16), hexDigit (unit % 16)]

/-- The escape sequence of an ASCII character that needs one. -/
def escapeAscii (unit : Nat) : Bytes :=
  if unit = 0x22 then bytes "\\\""
  else if unit = 0x5C then bytes "\\\\"
  else if unit = 0x08 then bytes "\\b"
  else if unit = 0x0C then bytes "\\f"
  else if unit = 0x0A then bytes "\\n"
  else if unit = 0x0D then bytes "\\r"
  else if unit = 0x09 then bytes "\\t"
  else escapeUnit unit

/-- An ASCII character of a text. -/
def asciiText (unit : Nat) : Bytes :=
  if unit < 0x20 ∨ unit = 0x22 ∨ unit = 0x5C then escapeAscii unit else [UInt8.ofNat unit]

/-- The first half of a surrogate pair. -/
def isHighSurrogate (unit : Nat) : Bool := 0xD800 ≤ unit && unit < 0xDC00

/-- The second half of a surrogate pair. -/
def isLowSurrogate (unit : Nat) : Bool := 0xDC00 ≤ unit && unit < 0xE000

/-- A character that is no surrogate, in UTF-8. -/
def unitText (unit : Nat) : Bytes :=
  if unit < 0x80 then asciiText unit
  else if unit < 0x800 then [UInt8.ofNat (0xC0 + unit / 64), UInt8.ofNat (0x80 + unit % 64)]
  else [UInt8.ofNat (0xE0 + unit / 4096), UInt8.ofNat (0x80 + unit / 64 % 64),
    UInt8.ofNat (0x80 + unit % 64)]

/-- The character of a surrogate pair, in UTF-8. -/
def pairText (high low : Nat) : Bytes :=
  let character := 0x10000 + (high - 0xD800) * 1024 + (low - 0xDC00)
  [UInt8.ofNat (0xF0 + character / 262144), UInt8.ofNat (0x80 + character / 4096 % 64),
    UInt8.ofNat (0x80 + character / 64 % 64), UInt8.ofNat (0x80 + character % 64)]

/-- The text between quotes; a surrogate without its other half becomes an escape sequence. -/
def escapedString : Utf16 → Bytes
  | [] => []
  | unit :: rest =>
    if isHighSurrogate unit.toNat || isLowSurrogate unit.toNat then
      match rest with
      | [] => escapeUnit unit.toNat
      | low :: others =>
        if isHighSurrogate unit.toNat && isLowSurrogate low.toNat then
          pairText unit.toNat low.toNat ++ escapedString others
        else escapeUnit unit.toNat ++ escapedString (low :: others)
    else unitText unit.toNat ++ escapedString rest

/-- The spaces in front of a line. -/
def indentation (level : Nat) : Bytes := List.replicate (4 * level) (ascii ' ')

/-- Items on lines of their own. -/
def lines (level : Nat) (items : List Bytes) : Bytes :=
  if items = [] then []
  else (bytes ",\n").intercalate (items.map fun item => indentation level ++ item) ++ bytes "\n"

/-- A text between quotes. -/
def quoted (inner : Bytes) : Bytes := bytes "\"" ++ inner ++ bytes "\""

mutual

/-- The text of a value on a level of indentation. -/
def valueToJson (level : Nat) : Json → Bytes
  | .null => bytes "null"
  | .bool value => bytes (if value then "true" else "false")
  | .number value => bytes (toString value)
  | .text units => quoted (escapedString units)
  | .array items =>
    bytes "[\n" ++ lines (level + 1)
      (itemsToJson (level + 1) items) ++ indentation level ++ bytes "]"
  | .object members =>
    bytes "\x7b\n" ++ lines (level + 1)
      (membersToJson (level + 1) members) ++ indentation level ++ bytes "\x7d"

/-- The texts of the items of an array. -/
def itemsToJson (level : Nat) : List Json → List Bytes
  | [] => []
  | item :: rest => valueToJson level item :: itemsToJson level rest

/-- The texts of the members of an object, which hold ASCII keys. -/
def membersToJson (level : Nat) : List (String × Json) → List Bytes
  | [] => []
  | (key, item) :: rest =>
    (quoted (bytes key) ++ bytes ": " ++ valueToJson level item) :: membersToJson level rest

end

/-- The indented text of a document. -/
def toJson (document : Json) : Bytes := valueToJson 0 document ++ bytes "\n"

/-- The member of a key. -/
def member (key : String) : Json → Option Json
  | .object members => (members.find? (·.1 = key)).map (·.2)
  | _ => none

/-- A text, or nothing where there is none. -/
def asText : Json → Option Utf16
  | .text units => some units
  | _ => none

/-- The items of an array. -/
def asArray : Json → List Json
  | .array items => items
  | _ => []

/-- A whole number of 64 bits. -/
def asInteger : Json → Option Int
  | .number value => some value
  | _ => none

/-- A whole number of 32 bits. -/
def asInt : Json → Option Int
  | .number value => if -2147483648 ≤ value ∧ value ≤ 2147483647 then some value else none
  | _ => none

/-- Whether the value is an object. -/
def isObject : Json → Bool
  | .object _ => true
  | _ => false

/-- A text that starts with a character of one code unit. -/
theorem escapedString_cons {unit : UInt16} (single : ¬(0xD800 ≤ unit.toNat ∧ unit.toNat < 0xE000))
    (rest : Utf16) :
    escapedString (unit :: rest) = unitText unit.toNat ++ escapedString rest := by
  have neither : (isHighSurrogate unit.toNat || isLowSurrogate unit.toNat) = false := by
    simp only [isHighSurrogate, isLowSurrogate, Bool.or_eq_false_iff, Bool.and_eq_false_iff,
      decide_eq_false_iff_not]
    omega
  cases rest <;> simp [escapedString, neither]

/-- The items of an array as a list of their texts. -/
theorem itemsToJson_eq (level : Nat) (items : List Json) :
    itemsToJson level items = items.map (valueToJson level) := by
  induction items with
  | nil => rfl
  | cons item rest ih => simp [itemsToJson, ih]

/-- The members of an object as a list of their texts. -/
theorem membersToJson_eq (level : Nat) (members : List (String × Json)) :
    membersToJson level members =
    members.map fun entry => quoted (bytes entry.1) ++ bytes ": " ++ valueToJson level entry.2 := by
  induction members with
  | nil => rfl
  | cons entry rest ih => simp [membersToJson, ih]

/-- The length of a literal. -/
@[simp] theorem length_bytes (literal : String) : (bytes literal).length = literal.length := by
  simp [bytes, String.length_toList]

/-- The length of lines: an indentation and a line end each, and a comma behind all but the last. -/
theorem length_lines (level : Nat) (items : List Bytes) :
    (lines level items).length = (items.map fun item => 4 * level + item.length + 2).sum - 1 := by
  rcases items with _ | ⟨first, rest⟩
  · rfl
  · -- Each item has its indentation and two more bytes, but the last one lacks the comma.
    have all : ∀ first : Bytes,
      ((bytes ",\n").intercalate ((first :: rest).map fun item => indentation level ++ item)).length
        + 2 = ((first :: rest).map fun item => 4 * level + item.length + 2).sum := by
      induction rest with
      | nil => intro first; simp [indentation, List.intercalate]
      | cons second rest ih =>
        intro first
        have rest_ := ih second
        simp only [List.map_cons, List.sum_cons, List.intercalate, List.intersperse_cons_cons,
          List.flatten_cons,
          List.length_append, length_bytes, indentation, List.length_replicate] at rest_ ⊢
        have comma : String.length ",\n" = 2 := rfl
        omega
    have whole := all first
    simp only [lines, List.cons_ne_nil, if_false, List.length_append, length_bytes]
    have line : String.length "\n" = 1 := rfl
    omega

/-- The number of bytes between quotes. -/
def textSize (units : Utf16) : Nat := (escapedString units).length

/-- The number of bytes of a value. -/
theorem length_text (level : Nat) (units : Utf16) :
    (valueToJson level (.text units)).length = textSize units + 2 := by
  have quote : String.length "\"" = 1 := rfl
  simp only [valueToJson, quoted, textSize, List.length_append, length_bytes]
  omega

/-- The number of bytes of an array. -/
theorem length_array (level : Nat) (items : List Json) : (valueToJson level (.array items)).length =
    (items.map fun item => 4 * (level + 1) + (valueToJson (level + 1) item).length + 2).sum - 1 +
      4 * level + 3 := by
  simp only [valueToJson, List.length_append, length_bytes, length_lines, itemsToJson_eq,
    List.map_map, indentation,
    List.length_replicate, Function.comp_def]
  have opening : String.length "[\n" = 2 := rfl
  have closing : String.length "]" = 1 := rfl
  omega

/-- The number of bytes of an object. -/
theorem length_object (level : Nat) (members : List (String × Json)) :
    (valueToJson level (.object members)).length =
    (members.map fun entry =>
      4 * (level + 1) + entry.1.length + (valueToJson (level + 1) entry.2).length + 6).sum - 1 + 4 *
        level + 3 := by
  simp only [valueToJson, List.length_append, length_bytes, length_lines, membersToJson_eq,
    List.map_map, indentation,
    List.length_replicate, Function.comp_def, quoted]
  -- The marks between and around the members.
  have opening : String.length "\x7b\n" = 2 := rfl
  have closing : String.length "\x7d" = 1 := rfl
  have quote : String.length "\"" = 1 := rfl
  have colon : String.length ": " = 2 := rfl
  have same : (members.map fun entry =>
    4 * (level + 1) + (String.length "\"" + entry.1.length + String.length "\"" +
      String.length ": " + (valueToJson (level + 1) entry.2).length) + 2) = members.map fun entry =>
      4 * (level + 1) + entry.1.length + (valueToJson (level + 1) entry.2).length + 6 := by
    refine List.map_congr_left fun entry _ => ?_
    omega
  rw [same]
  omega

end Json

end Loglib
