import Loglib.Pipeline.FieldTexts

/-! How one JSON line is decoded, with the types that a worker has last seen under each key. -/

namespace Loglib

/-- The backslash of an escape. -/
def backslash : Byte := ascii '\\'

/-- The double quote. -/
def quote : Byte := ascii '"'

/-- `json_type`. -/
inductive JsonType where
  | null
  | boolean
  | number
  | string
  | array
  | object
deriving DecidableEq

/-- `number_type`. -/
inductive NumberType where
  | floatingPointNumber
  | signedInteger
  | unsignedInteger
  | bigInteger
deriving DecidableEq

/-- A number literal. The integer is there without a fraction and an exponent. -/
structure JsonNumber where
  text : Bytes
  negative : Bool
  integer : Option Nat
  double : Double

/-- A value as it is written. The text of a string is what stands between its quotes. -/
inductive JsonValue where
  | null
  | boolean (value : Bool)
  | number (literal : JsonNumber)
  | string (raw : Bytes)
  | array (text : Bytes)
  | object (text : Bytes)

/-- A field of an object, with the blanks up to the next token, and where its value starts
in the file. -/
structure JsonField where
  escapedKey : Bytes
  value : JsonValue
  padding : Bytes
  offset : Nat

/-- The text from the value up to the next token. -/
def JsonField.token (field : JsonField) : Bytes :=
  match field.value with
  | .null => bytes "null" ++ field.padding
  | .boolean value => (if value then bytes "true" else bytes "false") ++ field.padding
  | .number literal => literal.text ++ field.padding
  | .string raw => quote :: raw ++ quote :: field.padding
  | .array text => text ++ field.padding
  | .object text => text ++ field.padding

/-- A line that holds one object. No value is written without a text, and the reader takes no
document of `2 ^ 32` bytes. -/
structure JsonLine where
  fields : List JsonField
  written : ∀ field ∈ fields, field.token ≠ []
  short : ∀ field ∈ fields, field.token.length < 2 ^ 32

/-- How escapes are replaced. A text without a backslash stays as it is, and none gets longer. -/
structure Unescaping where
  unescape : Bytes → Option Bytes
  plain : ∀ raw, backslash ∉ raw → unescape raw = some raw
  shorter : ∀ raw text, unescape raw = some text → text.length ≤ raw.length

namespace JsonNumber

/-- `get<int64_t>`. -/
def getInt64 (literal : JsonNumber) : Option Int64 :=
  literal.integer.bind fun magnitude =>
    if literal.negative then if magnitude ≤ 2 ^ 63 then some (Int64.ofInt (-(magnitude : Int)))
      else none
    else if magnitude < 2 ^ 63 then some (Int64.ofInt magnitude) else none

/-- `get<uint64_t>`. -/
def getUint64 (literal : JsonNumber) : Option UInt64 :=
  literal.integer.bind fun magnitude =>
    if literal.negative = false ∧ magnitude < 2 ^ 64 then some (UInt64.ofNat magnitude) else none

/-- `get_number_type`. -/
def numberType (literal : JsonNumber) : NumberType :=
  if literal.integer = none then .floatingPointNumber
  else if literal.getInt64.isSome then .signedInteger
  else if literal.getUint64.isSome then .unsignedInteger
  else .bigInteger

end JsonNumber

namespace JsonValue

/-- `type`. -/
def type : JsonValue → JsonType
  | .null => .null
  | .boolean _ => .boolean
  | .number _ => .number
  | .string _ => .string
  | .array _ => .array
  | .object _ => .object

/-- `get<bool>`. -/
def getBool : JsonValue → Option Bool
  | .boolean value => some value
  | _ => none

/-- The number literal, where there is one. -/
def literal : JsonValue → Option JsonNumber
  | .number literal => some literal
  | _ => none

/-- The literal is an array or an object. -/
def isContainer : JsonValue → Bool
  | .array _ => true
  | .object _ => true
  | _ => false

end JsonValue

/-- `ParseCache`: the type last seen under each key, and the type of number. -/
structure ParseCache where
  keyTypes : KeyId → Option JsonType
  numberTypes : KeyId → Option NumberType

namespace ParseCache

/-- Nothing has been seen. -/
def empty : ParseCache := ⟨fun _ => none, fun _ => none⟩

/-- The types of a value are remembered under its key. -/
def learn (cache : ParseCache) (id : KeyId) (value : JsonValue) : ParseCache where
  keyTypes := Function.update cache.keyTypes id (some value.type)
  numberTypes :=
    match value.literal with
    | some literal => Function.update cache.numberTypes id (some literal.numberType)
    | none => cache.numberTypes

end ParseCache

section Slots

/-- `MakeStringCompact`: a text of the file stays there, any other one goes to the arena. -/
def makeStringCompact (text : Bytes) (fileOffset : Option Nat) (ownedArena : Bytes) :
    CompactLogValue × Bytes :=
  match fileOffset with
  | some offset => (.mmapSlice offset (UInt32.ofNat text.length), ownedArena)
  | none => (ownedSlot ownedArena.length text.length, ownedArena ++ text)

/-- `ExtractStringValue`. A string is taken as it stands if the token ends with it and needs no
unescaping. -/
def extractStringValue (strings : Unescaping) (sourceIsStable : Bool) (field : JsonField)
    (ownedArena : Bytes) :
    CompactLogValue × Bytes :=
  match field.value with
  | .string raw =>
    -- Only a text without escapes can stay a slice of the file.
    if sourceIsStable = true ∧ field.padding = [] ∧ backslash ∉ raw then
      makeStringCompact raw (some (field.offset + 1)) ownedArena
    else
      -- A text that does not unescape leaves the field without a value.
      match strings.unescape raw with
      | some text => makeStringCompact text none ownedArena
      | none => (.monostate, ownedArena)
  | _ => (.monostate, ownedArena)

/-- The blanks that `ExtractRawJsonValue` trims. -/
def isJsonBlank (c : Byte) : Bool :=
  c = ascii ' ' || c = newline || c = ascii '\r' || c = ascii '\t'

/-- The raw text of a value. -/
def JsonField.rawJson (field : JsonField) : Bytes := field.token.rdropWhile isJsonBlank

/-- `ExtractRawJsonValue`. -/
def extractRawJsonValue (sourceIsStable : Bool) (field : JsonField) (ownedArena : Bytes) :
    CompactLogValue × Bytes :=
  makeStringCompact field.rawJson (if sourceIsStable then some field.offset else none) ownedArena

/-- The slot that the cached types lead to, if the value is of the cached type. -/
def cachedSlot (strings : Unescaping) (sourceIsStable : Bool) (field : JsonField)
    (ownedArena : Bytes)
    (keyType : Option JsonType) (numberType : Option NumberType) :
    Option (CompactLogValue × Bytes) :=
  -- A key that has not been seen has no type to try.
  match keyType with
  | none => none
  | some .boolean => field.value.getBool.map fun b => (.bool b, ownedArena)
  | some .number =>
    match numberType with
    | some .signedInteger =>
      (field.value.literal.bind (·.getInt64)).map fun i => (.int64 i, ownedArena)
    | some .unsignedInteger =>
      (field.value.literal.bind (·.getUint64)).map fun u => (.uint64 u, ownedArena)
    | some .floatingPointNumber =>
      field.value.literal.map fun literal => (.double literal.double, ownedArena)
    | _ => none
  | some .string =>
    let stringValue := extractStringValue strings sourceIsStable field ownedArena
    -- A reading that fails falls back to the type of the value itself.
    if stringValue.1 = .monostate then none else some stringValue
  | some .array | some .object =>
    let rawValue := extractRawJsonValue sourceIsStable field ownedArena
    if rawValue.1 = .monostate then none else some rawValue
  | some .null => if field.value.type = .null then some (.monostate, ownedArena) else none

/-- The slot that the value's own type leads to. -/
def typedSlot (strings : Unescaping) (sourceIsStable : Bool) (field : JsonField)
    (ownedArena : Bytes) :
    CompactLogValue × Bytes :=
  match field.value with
  | .null => (.monostate, ownedArena)
  | .boolean b => (.bool b, ownedArena)
  | .number literal =>
    match literal.numberType with
    | .signedInteger => ((literal.getInt64.map .int64).getD .monostate, ownedArena)
    | .unsignedInteger => ((literal.getUint64.map .uint64).getD .monostate, ownedArena)
    | .floatingPointNumber => (.double literal.double, ownedArena)
    | .bigInteger => (.monostate, ownedArena)
  | .string _ => extractStringValue strings sourceIsStable field ownedArena
  | .array _ | .object _ => extractRawJsonValue sourceIsStable field ownedArena

end Slots

/-- `ExtractFieldKey`. A key that cannot be unescaped has no name, and its field is left out. -/
def JsonField.key (strings : Unescaping) (field : JsonField) : Option Bytes :=
  if backslash ∉ field.escapedKey then some field.escapedKey
  else (strings.unescape field.escapedKey).filter (· ≠ [])

/-- A row under way, with the key index, the worker's cache and the arena of the batch. -/
structure JsonRow where
  values : LineFields
  keys : KeyIndex
  cache : ParseCache
  ownedArena : Bytes

/-- One field of the object. -/
def parseJsonField (strings : Unescaping) (sourceIsStable : Bool) (row : JsonRow)
    (field : JsonField) : JsonRow :=
  match field.key strings with
  | none => row
  -- The key is registered even if the value turns out to have none.
  | some key =>
    let (keys, id) := row.keys.getOrInsert key
    match cachedSlot strings sourceIsStable field row.ownedArena (row.cache.keyTypes id)
      (row.cache.numberTypes id) with
    | some (slot, ownedArena) => { row with values := row.values.put id slot, keys, ownedArena }
    -- The cache learns the type only where it did not help.
    | none =>
      let (slot, ownedArena) := typedSlot strings sourceIsStable field row.ownedArena
      { values := row.values.put id slot, keys, cache := row.cache.learn id field.value, ownedArena }

/-- `ParseJsonLine`. -/
def parseJsonLine (strings : Unescaping) (sourceIsStable : Bool) (keys : KeyIndex)
    (cache : ParseCache)
    (ownedArena : Bytes) (line : JsonLine) : JsonRow :=
  line.fields.foldl (parseJsonField strings sourceIsStable) ⟨.empty, keys, cache, ownedArena⟩

/-- The value of a row under a name, with its texts in the file and in the arena. -/
def JsonRow.field (row : JsonRow) (data : Bytes) (name : Bytes) : Option LogValue :=
  ((row.keys.find name).bind row.values.lookup).map (·.read data row.ownedArena)

end Loglib
