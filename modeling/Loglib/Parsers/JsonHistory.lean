import Loglib.Parsers.JsonLine

/-! What a JSON row shows depends on the types that its worker has seen before only where a cached
type takes literals of other types. -/

namespace Loglib

/-- What is cached under one key. -/
structure CachedTypes where
  keyType : Option JsonType
  numberType : Option NumberType

/-- How a value is read: by its own type, or by a cached type that also takes it. -/
inductive JsonReading where
  | byItself
  | asRawText
  | asDouble
  | asUnsigned
deriving DecidableEq

namespace CachedTypes

/-- Nothing is cached. -/
def empty : CachedTypes := ⟨none, none⟩

/-- How a value is read: a cached array or object takes scalars as raw text, a cached floating
point number takes integers, and a cached unsigned integer takes those that are signed integers
otherwise. -/
def reading (cached : CachedTypes) (value : JsonValue) : JsonReading :=
  match cached.keyType with
  | some .array | some .object => if value.isContainer then .byItself else .asRawText
  | some .number =>
    match value.literal, cached.numberType with
    | some literal, some .floatingPointNumber =>
      if literal.integer = none then .byItself else .asDouble
    | some literal, some .unsignedInteger =>
      if literal.getInt64.isSome ∧ literal.getUint64.isSome then .asUnsigned else .byItself
    | _, _ => .byItself
  | _ => .byItself

/-- The value is of the cached type, as far as the reader can tell. -/
def takes (strings : Unescaping) (cached : CachedTypes) (value : JsonValue) : Bool :=
  match cached.keyType with
  -- A key that has not been seen takes nothing.
  | none => false
  | some .boolean => value.getBool.isSome
  | some .number =>
    match cached.numberType with
    | some .signedInteger => (value.literal.bind (·.getInt64)).isSome
    | some .unsignedInteger => (value.literal.bind (·.getUint64)).isSome
    | some .floatingPointNumber => value.literal.isSome
    | _ => false
  | some .string =>
    match value with
    | .string raw => (strings.unescape raw).isSome
    | _ => false
  -- Raw text is taken of any value.
  | some .array | some .object => true
  | some .null => value.type = .null

/-- What is cached after a value. -/
def after (strings : Unescaping) (cached : CachedTypes) (value : JsonValue) : CachedTypes :=
  if cached.takes strings value then cached
  else
    { keyType := some value.type
      numberType := (value.literal.map fun literal =>
        some literal.numberType).getD cached.numberType }

/-- What is cached after the values of some fields. -/
def afterAll (strings : Unescaping) (cached : CachedTypes) (fields : List JsonField) :
    CachedTypes :=
  fields.foldl (fun cached field => cached.after strings field.value) cached

/-- How the last of several fields under one key is read. -/
def lastReading (strings : Unescaping) (cached : CachedTypes) (fields : List JsonField) :
    Option JsonReading :=
  fields.getLast?.map fun field => (cached.afterAll strings fields.dropLast).reading field.value

end CachedTypes

/-- What is cached under an id. -/
def ParseCache.types (cache : ParseCache) (id : KeyId) : CachedTypes :=
  ⟨cache.keyTypes id, cache.numberTypes id⟩

namespace JsonField

/-- What a field shows in a reading. -/
def shown (strings : Unescaping) (field : JsonField) : JsonReading → LogValue
  | .asRawText => .string field.rawJson
  | .asDouble => (field.value.literal.map fun literal => .double literal.double).getD .monostate
  | .asUnsigned => ((field.value.literal.bind (·.getUint64)).map .uint64).getD .monostate
  | .byItself =>
    match field.value with
    | .null => .monostate
    | .boolean b => .bool b
    | .number literal =>
      match literal.numberType with
      | .signedInteger => (literal.getInt64.map .int64).getD .monostate
      | .unsignedInteger => (literal.getUint64.map .uint64).getD .monostate
      | .floatingPointNumber => .double literal.double
      | .bigInteger => .monostate
    | .string raw => ((strings.unescape raw).map .string).getD .monostate
    | .array _ | .object _ => .string field.rawJson

/-- The token of the field stands in the file. -/
def InFile (data : Bytes) (field : JsonField) : Prop :=
  ∃ front back, data = front ++ field.token ++ back ∧ front.length = field.offset

/-- The slot shows a value: its text lies in the file, or in the arena or behind it. -/
structure Slotted (data arena : Bytes) (result : CompactLogValue × Bytes)
    (value : LogValue) : Prop where
  grown : arena <+: result.2
  fits : result.1.Fits data result.2
  reads : result.1.read data result.2 = value

section Slots

variable {strings : Unescaping} {field : JsonField} {data arena : Bytes}

/-- A slot without a text. -/
theorem slotted_plain {slot : CompactLogValue} {value : LogValue} (fits : slot.Fits data arena)
    (reads : slot.read data arena = value) : Slotted data arena (slot, arena) value :=
  ⟨List.prefix_refl arena, fits, reads⟩

/-- A text that goes to the arena. -/
theorem slotted_owned {text : Bytes} (short : text.length < 2 ^ 32) :
    Slotted data arena (makeStringCompact text none arena) (.string text) := by
  -- The arena grows by the text, and the slot reads it back.
  obtain ⟨fits, reads⟩ := ownedSlot_reads data arena short
  exact ⟨List.prefix_append _ _, fits, reads⟩

/-- A text that stands in the file. -/
theorem slotted_mapped {front text back : Bytes} (inside : data = front ++ text ++ back)
    (some_ : data ≠ [])
    (short : text.length < 2 ^ 32) :
    Slotted data arena (makeStringCompact text (some front.length) arena) (.string text) := by
  have length : (UInt32.ofNat text.length).toNat = text.length := UInt32.toNat_ofNat_of_lt' short
  -- The text lies inside the file.
  have within : front.length + text.length ≤ data.length := by
    rw [inside]
    simp only [List.length_append]
    omega
  refine ⟨List.prefix_refl arena, ⟨?_, some_⟩, ?_⟩
  · rw [length]
    exact within
  · show LogValue.string (slice data front.length (UInt32.ofNat text.length).toNat) = _
    rw [length, slice, if_pos within, inside, List.append_assoc, List.drop_left, List.take_left]

/-- Trimming leaves the front of the token. -/
theorem rawJson_prefix (field : JsonField) : field.rawJson <+: field.token :=
  List.rdropWhile_prefix _ _

/-- A raw text with its quotes is longer than what stands between them. -/
theorem length_rawJson {raw : Bytes} (written : field.value = .string raw) :
    raw.length + 2 ≤ field.rawJson.length := by
  -- The closing quote is not trimmed.
  have token : field.token = (quote :: raw ++ [quote]) ++ field.padding := by
    simp [JsonField.token, written]
  have kept : (quote :: raw ++ [quote]) <+: field.rawJson := by
    unfold rawJson
    rw [token]
    generalize field.padding = padding
    induction padding using List.reverseRecOn with
    | nil =>
      rw [List.append_nil, List.rdropWhile_concat_neg]
      exact by decide
    | append_singleton rest c ih =>
      by_cases blank : isJsonBlank c = true
      · rw [← List.append_assoc, List.rdropWhile_concat_pos _ _ _ blank]
        exact ih
      · rw [← List.append_assoc, List.rdropWhile_concat_neg _ _ _ blank]
        exact (List.prefix_append _ _).trans (List.prefix_append _ _)
  have long := kept.length_le
  simp only [List.length_append, List.length_cons, List.length_nil] at long
  omega

/-- The raw text of a field. -/
theorem extractRawJsonValue_slotted {sourceIsStable : Bool} (short : field.token.length < 2 ^ 32)
    (inFile : sourceIsStable = true → field.InFile data) (some_ : field.token ≠ []) :
    Slotted data arena (extractRawJsonValue sourceIsStable field arena)
      (.string field.rawJson) := by
  have shorter : field.rawJson.length < 2 ^ 32 :=
    lt_of_le_of_lt field.rawJson_prefix.length_le short
  unfold extractRawJsonValue
  cases sourceIsStable with
  | false => exact slotted_owned shorter
  | true =>
    -- The raw text is a part of the token, and so a part of the file.
    obtain ⟨front, back, inside, offset⟩ := inFile rfl
    obtain ⟨rest, parts⟩ := field.rawJson_prefix
    have nonempty : data ≠ [] := by
      rw [inside]
      simp [some_]
    rw [← parts, ← List.append_assoc, List.append_assoc (front ++ _)] at inside
    rw [← offset]
    exact slotted_mapped inside nonempty shorter

/-- The text of a string. -/
theorem extractStringValue_slotted {sourceIsStable : Bool} {raw : Bytes}
    (written : field.value = .string raw)
    (short : field.token.length < 2 ^ 32) (inFile : sourceIsStable = true → field.InFile data) :
    Slotted data arena (extractStringValue strings sourceIsStable field arena)
      (((strings.unescape raw).map .string).getD .monostate) := by
  have token : field.token = quote :: raw ++ quote :: field.padding := by
    simp [JsonField.token, written]
  have room : raw.length + 2 ≤ field.token.length := by
    rw [token]
    simp only [List.length_append, List.length_cons]
    omega
  unfold extractStringValue
  rw [written]
  simp only
  split
  · -- The string stands in the file, one byte behind the opening quote.
    rename_i fast
    obtain ⟨front, back, inside, offset⟩ := inFile fast.1
    rw [strings.plain raw fast.2.2]
    have parts : data = (front ++ [quote]) ++ raw ++ (quote :: field.padding ++ back) := by
      rw [inside, token]
      simp
    have nonempty : data ≠ [] := by
      rw [parts]
      simp
    have behind : field.offset + 1 = (front ++ [quote]).length := by
      rw [List.length_append, offset]
      rfl
    rw [behind]
    exact slotted_mapped parts nonempty (by omega)
  · cases unescaped : strings.unescape raw with
    | none => exact slotted_plain trivial rfl
    | some text =>
      have shorter := strings.shorter raw text unescaped
      exact slotted_owned (by omega)

/-- The value's own type leads to what the value shows by itself. -/
theorem typedSlot_slotted {sourceIsStable : Bool} (short : field.token.length < 2 ^ 32)
    (inFile : sourceIsStable = true → field.InFile data) (some_ : field.token ≠ []) :
    Slotted data arena (typedSlot strings sourceIsStable field arena)
      (field.shown strings .byItself) := by
  -- Only texts, arrays and objects are slices; the other values are held in the slot itself.
  unfold typedSlot shown
  cases written : field.value with
  | null => exact slotted_plain trivial rfl
  | boolean b => exact slotted_plain trivial rfl
  | number literal =>
    simp only
    cases literal.numberType with
    | floatingPointNumber => exact slotted_plain trivial rfl
    | signedInteger => cases literal.getInt64 <;> exact slotted_plain trivial rfl
    | unsignedInteger => cases literal.getUint64 <;> exact slotted_plain trivial rfl
    | bigInteger => exact slotted_plain trivial rfl
  | string raw => exact extractStringValue_slotted written short inFile
  | array text => exact extractRawJsonValue_slotted short inFile some_
  | object text => exact extractRawJsonValue_slotted short inFile some_

/-- A text has a slot. -/
theorem makeStringCompact_ne_monostate (text : Bytes) (fileOffset : Option Nat) (arena : Bytes) :
    (makeStringCompact text fileOffset arena).1 ≠ .monostate := by
  cases fileOffset <;> exact nofun

/-- A string has no slot exactly if it cannot be unescaped. -/
theorem extractStringValue_eq_monostate_iff {sourceIsStable : Bool} {raw : Bytes}
    (written : field.value = .string raw) :
    (extractStringValue strings sourceIsStable field arena).1 = .monostate ↔
      strings.unescape raw = none := by
  unfold extractStringValue
  rw [written]
  simp only
  -- The fast path takes the text as it is, the other one unescapes it.
  split
  · rename_i fast
    rw [strings.plain raw fast.2.2]
    exact iff_of_false (makeStringCompact_ne_monostate _ _ _) nofun
  · cases unescaped : strings.unescape raw with
    | none => exact iff_of_true rfl rfl
    | some text => exact iff_of_false (makeStringCompact_ne_monostate _ _ _) nofun

/-- An integer that fits the signed type is of that type. -/
theorem numberType_of_getInt64 {literal : JsonNumber} {i : Int64}
    (fits : literal.getInt64 = some i) :
    literal.numberType = .signedInteger := by
  have integer : literal.integer ≠ none := by
    intro none_
    simp [JsonNumber.getInt64, none_] at fits
  simp [JsonNumber.numberType, integer, fits]

/-- An integer that fits only the unsigned type is of that type. -/
theorem numberType_of_getUint64 {literal : JsonNumber} {u : UInt64}
    (large : literal.getInt64 = none)
    (fits : literal.getUint64 = some u) : literal.numberType = .unsignedInteger := by
  have integer : literal.integer ≠ none := by
    intro none_
    simp [JsonNumber.getUint64, none_] at fits
  simp [JsonNumber.numberType, integer, large, fits]

/-- A raw text is what a container shows by itself, and what any other value shows as raw text. -/
theorem shown_of_container (strings : Unescaping) (field : JsonField) :
    field.shown strings (if field.value.isContainer then .byItself
      else .asRawText) = .string field.rawJson := by
  cases written : field.value with
  | array text => simp [JsonValue.isContainer, shown, written]
  | object text => simp [JsonValue.isContainer, shown, written]
  | _ => rfl

/-- What a cached type of number leads to. -/
theorem cachedNumber_spec {sourceIsStable : Bool} {literal : JsonNumber}
    (written : field.value = .number literal)
    (numberType : Option NumberType) :
    (∃ result, cachedSlot strings sourceIsStable field arena (some .number) numberType =
      some result ∧
      (CachedTypes.mk (some .number) numberType).takes strings field.value = true ∧
        Slotted data arena result
          (field.shown strings ((CachedTypes.mk (some .number) numberType).reading field.value))) ∨
    (cachedSlot strings sourceIsStable field arena (some .number) numberType = none ∧
      (CachedTypes.mk (some .number) numberType).takes strings field.value = false ∧
        (CachedTypes.mk (some .number) numberType).reading field.value = .byItself) := by
  have isLiteral : field.value.literal = some literal := by rw [written]; rfl
  cases numberType with
  | none => exact .inr ⟨rfl, rfl, by simp [CachedTypes.reading, isLiteral]⟩
  | some numberType =>
    cases numberType with
    | bigInteger => exact .inr ⟨rfl, rfl, by simp [CachedTypes.reading, isLiteral]⟩
    | signedInteger =>
      cases fits : literal.getInt64 with
      | none =>
        exact .inr ⟨by simp [cachedSlot, isLiteral, fits], by simp [CachedTypes.takes, isLiteral, fits],
          by simp [CachedTypes.reading, isLiteral]⟩
      | some i =>
        refine .inl ⟨(.int64 i, arena),
          by simp [cachedSlot, isLiteral, fits], by simp [CachedTypes.takes, isLiteral, fits],
          slotted_plain trivial ?_⟩
        simp [CachedTypes.reading, shown, written, numberType_of_getInt64 fits, fits,
          CompactLogValue.read]
    | unsignedInteger =>
      cases fits : literal.getUint64 with
      | none =>
        exact .inr ⟨by simp [cachedSlot, isLiteral, fits], by simp [CachedTypes.takes, isLiteral, fits],
          by simp [CachedTypes.reading, isLiteral, fits]⟩
      | some u =>
        refine .inl ⟨(.uint64 u, arena),
          by simp [cachedSlot, isLiteral, fits], by simp [CachedTypes.takes, isLiteral, fits],
          slotted_plain trivial ?_⟩
        -- The literal is unsigned by itself only if it does not fit the signed type.
        cases small : literal.getInt64 with
        | none =>
          simp [CachedTypes.reading, JsonValue.literal, fits, small, shown, written,
            numberType_of_getUint64 small fits,
            CompactLogValue.read]
        | some i => simp [CachedTypes.reading, isLiteral, fits, small, shown, CompactLogValue.read]
    | floatingPointNumber =>
      refine .inl ⟨(.double literal.double, arena),
        by simp [cachedSlot, isLiteral], by simp [CachedTypes.takes, isLiteral],
        slotted_plain trivial ?_⟩
      cases integer : literal.integer with
      | none =>
        simp [CachedTypes.reading, JsonValue.literal, integer, shown, written,
          JsonNumber.numberType, CompactLogValue.read]
      | some magnitude =>
        simp [CachedTypes.reading, isLiteral, integer, shown, CompactLogValue.read]

/-- What the cached types lead to: a slot that shows the value in its reading, or none, if the value
is of another type. Then it is read by itself. -/
theorem cachedSlot_spec {sourceIsStable : Bool} (cached : CachedTypes)
    (short : field.token.length < 2 ^ 32)
    (inFile : sourceIsStable = true → field.InFile data) (some_ : field.token ≠ []) :
    (∃ result, cachedSlot strings sourceIsStable field arena cached.keyType cached.numberType =
      some result ∧
      cached.takes strings field.value = true ∧
        Slotted data arena result (field.shown strings (cached.reading field.value))) ∨
    (cachedSlot strings sourceIsStable field arena cached.keyType cached.numberType = none ∧
      cached.takes strings field.value = false ∧ cached.reading field.value = .byItself) := by
  obtain ⟨keyType, numberType⟩ := cached
  -- One case for each cached type. Only numbers, arrays and objects take literals of other types.
  cases keyType with
  | none => exact .inr ⟨rfl, rfl, rfl⟩
  | some keyType =>
    cases keyType with
    | boolean =>
      cases written : field.value with
      | boolean b =>
        refine .inl ⟨(.bool b, arena), ?_, rfl, slotted_plain trivial ?_⟩
        · simp [cachedSlot, written, JsonValue.getBool]
        · simp [CachedTypes.reading, shown, written, CompactLogValue.read]
      | _ => exact .inr ⟨by simp [cachedSlot, written, JsonValue.getBool], rfl, rfl⟩
    | number =>
      cases written : field.value with
      | number literal =>
        rw [← written]
        exact cachedNumber_spec written numberType
      | _ =>
        refine .inr ⟨?_, ?_, rfl⟩
        · cases numberType with
          | none => rfl
          | some numberType => cases numberType <;> simp [cachedSlot, written, JsonValue.literal]
        · cases numberType with
          | none => rfl
          | some numberType => cases numberType <;> rfl
    | string =>
      cases written : field.value with
      | string raw =>
        cases unescaped : strings.unescape raw with
        | none =>
          refine .inr ⟨?_, by simp [CachedTypes.takes, unescaped], rfl⟩
          simp only [cachedSlot]
          rw [if_pos ((extractStringValue_eq_monostate_iff written).mpr unescaped)]
        | some text =>
          refine .inl ⟨extractStringValue strings sourceIsStable field arena, ?_,
            by simp [CachedTypes.takes, unescaped], ?_⟩
          · simp only [cachedSlot]
            rw [if_neg]
            rw [extractStringValue_eq_monostate_iff written, unescaped]
            exact Option.some_ne_none text
          · have slotted := @extractStringValue_slotted strings field data arena sourceIsStable raw
              written short inFile
            simpa [CachedTypes.reading, shown, written] using slotted
      | _ => exact .inr ⟨by simp [cachedSlot, written, extractStringValue], rfl, rfl⟩
    | array =>
      have slotted : Slotted data arena (extractRawJsonValue sourceIsStable field arena)
          (.string field.rawJson) :=
        extractRawJsonValue_slotted short inFile some_
      rw [← shown_of_container] at slotted
      exact .inl ⟨_, if_neg (makeStringCompact_ne_monostate _ _ _), rfl, slotted⟩
    | object =>
      have slotted : Slotted data arena (extractRawJsonValue sourceIsStable field arena)
          (.string field.rawJson) :=
        extractRawJsonValue_slotted short inFile some_
      rw [← shown_of_container] at slotted
      exact .inl ⟨_, if_neg (makeStringCompact_ne_monostate _ _ _), rfl, slotted⟩
    | null =>
      cases written : field.value with
      | null =>
        refine .inl ⟨(.monostate, arena), ?_, rfl, slotted_plain trivial ?_⟩
        · simp [cachedSlot, written, JsonValue.type]
        · simp [CachedTypes.reading, shown, written, CompactLogValue.read]
      | _ => exact .inr ⟨by simp [cachedSlot, written, JsonValue.type], rfl, rfl⟩

end Slots

end JsonField

/-- The value can be read like this. -/
def JsonReading.Of (value : JsonValue) : JsonReading → Prop
  | .byItself => True
  | .asRawText => value.isContainer = false
  | .asDouble => ∃ literal, value.literal = some literal ∧ literal.integer ≠ none
  | .asUnsigned =>
    ∃ literal, value.literal = some literal ∧ literal.getInt64.isSome ∧ literal.getUint64.isSome

/-- Cached types lead to readings that the value has. -/
theorem CachedTypes.reading_of (cached : CachedTypes) (value : JsonValue) :
    (cached.reading value).Of value := by
  obtain ⟨keyType, numberType⟩ := cached
  unfold reading
  -- A cached type is tried first: a string key reads a string, a number key a number of its kind.
  split
  · split
    · trivial
    · rename_i scalar
      exact Bool.eq_false_of_not_eq_true scalar
  · split
    · trivial
    · rename_i scalar
      exact Bool.eq_false_of_not_eq_true scalar
  · split
    · rename_i literal isLiteral _
      split
      · trivial
      · rename_i integer
        exact ⟨literal, isLiteral, integer⟩
    · rename_i literal isLiteral _
      split
      · rename_i fits
        exact ⟨literal, isLiteral, fits⟩
      · trivial
    · trivial
  · trivial

namespace JsonField

/-- A value that is not read by itself shows something else. -/
theorem shown_ne_byItself (strings : Unescaping) {field : JsonField} {reading : JsonReading}
    (of : reading.Of field.value)
    (other : reading ≠ .byItself) :
    field.shown strings reading ≠ field.shown strings .byItself := by
  cases reading with
  | byItself => exact absurd rfl other
  | asRawText =>
    -- Only strings show a text by themselves, and theirs is shorter.
    have scalar : field.value.isContainer = false := of
    cases written : field.value with
    | null => simp [shown, written]
    | boolean b => simp [shown, written]
    | number literal =>
      simp only [shown, written]
      cases literal.numberType with
      | floatingPointNumber => exact nofun
      | signedInteger => cases literal.getInt64 <;> exact nofun
      | unsignedInteger => cases literal.getUint64 <;> exact nofun
      | bigInteger => exact nofun
    | string raw =>
      have longer := length_rawJson written
      cases unescaped : strings.unescape raw with
      | none => simp [shown, written, unescaped]
      | some text =>
        have shorter := strings.shorter raw text unescaped
        simp only [shown, written, unescaped, Option.map_some, Option.getD_some]
        intro same
        rw [LogValue.string.inj same] at longer
        omega
    | array text => simp [written, JsonValue.isContainer] at scalar
    | object text => simp [written, JsonValue.isContainer] at scalar
  | asDouble =>
    obtain ⟨literal, isLiteral, integer⟩ := of
    have written : field.value = .number literal := by
      cases value : field.value <;> simp_all [JsonValue.literal]
    simp only [shown, written, JsonValue.literal, Option.map_some, Option.getD_some]
    -- An integer is of one of the three integer types.
    have notFloating : literal.numberType ≠ .floatingPointNumber := by
      unfold JsonNumber.numberType
      rw [if_neg integer]
      split
      · exact nofun
      · split <;> exact nofun
    cases numberType : literal.numberType with
    | floatingPointNumber => exact absurd numberType notFloating
    | signedInteger => cases literal.getInt64 <;> exact nofun
    | unsignedInteger => cases literal.getUint64 <;> exact nofun
    | bigInteger => exact nofun
  | asUnsigned =>
    obtain ⟨literal, isLiteral, signed, unsigned⟩ := of
    have written : field.value = .number literal := by
      cases value : field.value <;> simp_all [JsonValue.literal]
    obtain ⟨i, fits⟩ := Option.isSome_iff_exists.mp signed
    obtain ⟨u, large⟩ := Option.isSome_iff_exists.mp unsigned
    simp [shown, written, JsonValue.literal, fits, large, numberType_of_getInt64 fits]

/-- Two readings show the same only if they are the same. -/
theorem shown_inj (strings : Unescaping) {field : JsonField} {first second : JsonReading}
    (ofFirst : first.Of field.value)
    (ofSecond : second.Of field.value) :
    field.shown strings first = field.shown strings second ↔ first = second := by
  refine ⟨fun same => ?_, fun same => by rw [same]⟩
  by_cases firstItself : first = .byItself
  · by_contra differ
    rw [firstItself] at same differ
    exact shown_ne_byItself strings ofSecond (Ne.symm differ) same.symm
  · by_cases secondItself : second = .byItself
    · rw [secondItself] at same
      exact absurd same (shown_ne_byItself strings ofFirst firstItself)
    · -- Neither is read by itself, so each shows a value of its own kind.
      cases first with
      | byItself => exact absurd rfl firstItself
      | asRawText =>
        cases second with
        | byItself => exact absurd rfl secondItself
        | asRawText => rfl
        | asDouble =>
          obtain ⟨literal, isLiteral, -⟩ := ofSecond
          simp [shown, isLiteral] at same
        | asUnsigned =>
          obtain ⟨literal, isLiteral, -, unsigned⟩ := ofSecond
          obtain ⟨u, large⟩ := Option.isSome_iff_exists.mp unsigned
          simp [shown, isLiteral, large] at same
      | asDouble =>
        obtain ⟨literal, isLiteral, -⟩ := ofFirst
        cases second with
        | byItself => exact absurd rfl secondItself
        | asRawText => simp [shown, isLiteral] at same
        | asDouble => rfl
        | asUnsigned =>
          obtain ⟨other, isOther, -, unsigned⟩ := ofSecond
          obtain ⟨u, large⟩ := Option.isSome_iff_exists.mp unsigned
          simp [shown, isLiteral] at same
          rw [isLiteral] at isOther
          obtain rfl := Option.some.inj isOther
          simp [large] at same
      | asUnsigned =>
        obtain ⟨literal, isLiteral, -, unsigned⟩ := ofFirst
        obtain ⟨u, large⟩ := Option.isSome_iff_exists.mp unsigned
        cases second with
        | byItself => exact absurd rfl secondItself
        | asRawText => simp [shown, isLiteral, large] at same
        | asDouble => simp [shown, isLiteral, large] at same
        | asUnsigned => rfl

/-- The last of several fields under one key as it shows. -/
def lastShown (strings : Unescaping) (cached : CachedTypes) (fields : List JsonField) :
    Option LogValue :=
  fields.getLast?.map fun field =>
    field.shown strings ((cached.afterAll strings fields.dropLast).reading field.value)

/-- What the last field shows says how it is read. -/
theorem lastShown_eq_iff (strings : Unescaping) (first second : CachedTypes)
    (fields : List JsonField) :
    lastShown strings first fields = lastShown strings second fields ↔
      first.lastReading strings fields = second.lastReading strings fields := by
  unfold lastShown CachedTypes.lastReading
  cases last : fields.getLast? with
  | none => exact iff_of_true rfl rfl
  | some field =>
    simp only [Option.map_some, Option.some.injEq]
    exact shown_inj strings (CachedTypes.reading_of _ _) (CachedTypes.reading_of _ _)

/-- One more field comes last. -/
theorem lastShown_concat (strings : Unescaping) (cached : CachedTypes) (fields : List JsonField)
    (field : JsonField) :
    lastShown strings cached (fields ++ [field]) =
      some (field.shown strings ((cached.afterAll strings fields).reading field.value)) := by
  simp [lastShown]

/-- The fields under a name. -/
def named (strings : Unescaping) (fields : List JsonField) (name : Bytes) : List JsonField :=
  fields.filter fun field => field.key strings = some name

/-- A field with the name comes last under it. -/
theorem named_concat_self {strings : Unescaping} {field : JsonField} {name : Bytes}
    (key : field.key strings = some name)
    (fields : List JsonField) :
    named strings (fields ++ [field]) name = named strings fields name ++ [field] := by
  simp [named, List.filter_append, key]

/-- A field with another name, or without one, does not count. -/
theorem named_concat_of_ne {strings : Unescaping} {field : JsonField} {name : Bytes}
    (key : field.key strings ≠ some name)
    (fields : List JsonField) :
    named strings (fields ++ [field]) name = named strings fields name := by
  simp [named, List.filter_append, key]

/-- The key index once the names of the fields have ids. -/
def keysAfter (strings : Unescaping) (keys : KeyIndex) (fields : List JsonField) : KeyIndex :=
  fields.foldl (fun keys field =>
    ((field.key strings).map fun key => (keys.getOrInsert key).1).getD keys) keys

end JsonField

namespace ParseCache

/-- What is cached under a name. -/
def typesOf (cache : ParseCache) (keys : KeyIndex) (name : Bytes) : CachedTypes :=
  (keys.find name).elim .empty cache.types

/-- What is cached once a value has been learnt. -/
theorem types_learn (cache : ParseCache) (id other : KeyId) (value : JsonValue) :
    (cache.learn id value).types other =
      if other = id then
        ⟨some value.type, (value.literal.map fun literal => some literal.numberType).getD
          (cache.types id).numberType⟩
      else cache.types other := by
  unfold types learn
  by_cases same : other = id
  · subst same
    cases value.literal <;> simp
  · cases value.literal <;> simp [same]

end ParseCache

/-- A new slot under the key of a name that may get its id only now. -/
theorem Shows.intern {keys : KeyIndex} {data arena grown : Bytes} {values : LineFields}
    {record : FieldRecord}
    (shows : Shows keys data arena values record) (name : Bytes) (longer : arena <+: grown)
    {slot : CompactLogValue}
    (fits : slot.Fits data grown) :
    Shows (keys.getOrInsert name).1 data grown (values.put (keys.getOrInsert name).2 slot)
      { record with
        fields := Function.update record.fields name (some (slot.read data grown)) } := by
  obtain ⟨more, rfl⟩ := longer
  have later := shows.append more
  refine ⟨fun other => ?_, fun id held located => ?_⟩
  · by_cases same : other = name
    · subst same
      simp [SortedMap.lookup_put]
    · simp only [Function.update_of_ne same]
      rw [later.reads, KeyIndex.find_getOrInsert_of_ne _ same]
      cases found : keys.find other with
      | none => rfl
      | some otherId =>
        -- Different names have different ids.
        have differs : otherId ≠ (keys.getOrInsert name).2 := by
          intro equal
          have located : (keys.getOrInsert name).1.find other = some (keys.getOrInsert name).2 := by
            rw [KeyIndex.find_getOrInsert_of_ne _ same, found, equal]
          exact same (KeyIndex.find_inj located (KeyIndex.find_getOrInsert_self keys name))
        simp [SortedMap.lookup_put, differs]
  · rw [SortedMap.lookup_put] at located
    split at located
    · obtain rfl := Option.some.inj located
      exact fits
    · exact later.fits id held located

/-- A row under way shows the fields so far, each name with its last one, and the cache
has seen them. -/
structure Decodes (strings : Unescaping) (data : Bytes) (keys : KeyIndex) (cache : ParseCache)
    (fields : List JsonField)
    (row : JsonRow) : Prop where
  keys : row.keys = JsonField.keysAfter strings keys fields
  registered : ∀ field ∈ fields, ∀ name, field.key strings = some name → row.keys.find name ≠ none
  shows : Shows row.keys data row.ownedArena row.values
    ⟨fun name => JsonField.lastShown strings (cache.typesOf row.keys name)
      (JsonField.named strings fields name), none⟩
  seen : ∀ name id, row.keys.find name = some id →
    row.cache.types id = (cache.types id).afterAll strings (JsonField.named strings fields name)
  unseen : ∀ id, (∀ name, row.keys.find name ≠ some id) → row.cache.types id = cache.types id

section Rows

variable {strings : Unescaping} {data : Bytes} {keys : KeyIndex} {cache : ParseCache}
    {fields : List JsonField}
  {row : JsonRow} {field : JsonField}

/-- The key of a field gets its id, and the cache has what the fields under that key have left. -/
theorem Decodes.seen_key (decodes : Decodes strings data keys cache fields row) (name : Bytes) :
    row.cache.types (row.keys.getOrInsert name).2 =
      (cache.types (row.keys.getOrInsert name).2).afterAll strings
        (JsonField.named strings fields name) := by
  cases found : row.keys.find name with
  | some id =>
    rw [KeyIndex.getOrInsert_of_find found]
    exact decodes.seen name id found
  | none =>
    -- The id is new, and no field had the name.
    have noField : JsonField.named strings fields name = [] := by
      refine List.filter_eq_nil_iff.mpr fun field member => ?_
      simpa using fun key => decodes.registered field member name key found
    rw [noField]
    refine decodes.unseen _ fun other taken => ?_
    have kept := (row.keys.getOrInsert_grows name).find taken
    obtain rfl := KeyIndex.find_inj kept (KeyIndex.find_getOrInsert_self row.keys name)
    exact nomatch found.symm.trans taken

/-- A field with a key: its slot is written, and the cache has seen its value. -/
theorem Decodes.step (decodes : Decodes strings data keys cache fields row) {name : Bytes}
    (key : field.key strings = some name) {slot : CompactLogValue} {arena : Bytes}
    {next : ParseCache}
    (slotted : JsonField.Slotted data row.ownedArena (slot, arena)
      (field.shown strings ((row.cache.types (row.keys.getOrInsert name).2).reading field.value)))
    (learnt : next.types (row.keys.getOrInsert name).2 =
      (row.cache.types (row.keys.getOrInsert name).2).after strings field.value)
    (others : ∀ id, id ≠ (row.keys.getOrInsert name).2 → next.types id = row.cache.types id) :
    Decodes strings data keys cache (fields ++ [field])
      ⟨row.values.put (row.keys.getOrInsert name).2 slot, (row.keys.getOrInsert name).1, next,
        arena⟩ := by
  -- The reading of a value depends on what the key has shown before.
  have before := decodes.seen_key name
  have self := KeyIndex.find_getOrInsert_self row.keys name
  -- Keys, cells and cached types, first for the new key and then for every other one.
  constructor
  · simp [JsonField.keysAfter, key, decodes.keys]
  · intro other member otherName otherKey
    rcases List.mem_append.mp member with old | new
    · obtain ⟨id, found⟩ := Option.ne_none_iff_exists'.mp
        (decodes.registered other old otherName otherKey)
      rw [(row.keys.getOrInsert_grows name).find found]
      exact nofun
    · obtain rfl := List.mem_singleton.mp new
      obtain rfl := Option.some.inj (key.symm.trans otherKey)
      rw [self]
      exact nofun
  · -- The new cell shows the field; the cells of other keys stay.
    have shows := decodes.shows.intern name slotted.grown slotted.fits
    refine ⟨fun other => ?_, shows.fits⟩
    rw [← shows.reads]
    by_cases same : other = name
    · subst same
      simp only [Function.update_self, slotted.reads, JsonField.named_concat_self key,
        JsonField.lastShown_concat,
        ParseCache.typesOf, self, Option.elim_some, before]
    · have differs : field.key strings ≠ some other :=
        fun otherKey => same (Option.some.inj (otherKey.symm.trans key))
      simp only [Function.update_of_ne same, JsonField.named_concat_of_ne differs,
        ParseCache.typesOf,
        KeyIndex.find_getOrInsert_of_ne _ same]
  · -- What a key has been learnt as is the fold of what it has shown.
    intro other id found
    by_cases same : other = name
    · subst same
      obtain rfl := Option.some.inj (self.symm.trans found)
      rw [JsonField.named_concat_self key]
      show next.types _ = List.foldl _ _ _
      rw [List.foldl_append, learnt, before]
      rfl
    · have differs : field.key strings ≠ some other :=
        fun otherKey => same (Option.some.inj (otherKey.symm.trans key))
      have apart : id ≠ (row.keys.getOrInsert name).2 := by
        rintro rfl
        exact same (KeyIndex.find_inj found self)
      rw [KeyIndex.find_getOrInsert_of_ne _ same] at found
      rw [JsonField.named_concat_of_ne differs, others id apart]
      exact decodes.seen other id found
  · -- An id without a key is not the new one.
    intro id free
    have apart : id ≠ (row.keys.getOrInsert name).2 := by
      rintro rfl
      exact free name self
    rw [others id apart]
    exact decodes.unseen id fun other taken =>
      free other ((row.keys.getOrInsert_grows name).find taken)

/-- One field keeps what holds of the row. -/
theorem parseJsonField_decodes (decodes : Decodes strings data keys cache fields row)
    {sourceIsStable : Bool}
    (short : field.token.length < 2 ^ 32) (inFile : sourceIsStable = true → field.InFile data)
    (some_ : field.token ≠ []) :
    Decodes strings data keys cache (fields ++ [field])
      (parseJsonField strings sourceIsStable row field) := by
  unfold parseJsonField
  cases key : field.key strings with
  | none =>
    -- The field is left out.
    have without : ∀ name, JsonField.named strings (fields ++ [field]) name =
        JsonField.named strings fields name :=
      fun name => JsonField.named_concat_of_ne (by simp [key]) fields
    refine ⟨?_, ?_, ?_, ?_, decodes.unseen⟩
    · simp [JsonField.keysAfter, key, decodes.keys]
    · intro other member name otherKey
      rcases List.mem_append.mp member with old | new
      · exact decodes.registered other old name otherKey
      · obtain rfl := List.mem_singleton.mp new
        exact nomatch key.symm.trans otherKey
    · simp only [without]
      exact decodes.shows
    · simp only [without]
      exact decodes.seen
  | some name =>
    have typed : JsonField.Slotted data row.ownedArena
      (typedSlot strings sourceIsStable field row.ownedArena)
        (field.shown strings .byItself) := JsonField.typedSlot_slotted short inFile some_
    simp only
    rcases @JsonField.cachedSlot_spec strings field data row.ownedArena sourceIsStable
      (row.cache.types (row.keys.getOrInsert name).2) short inFile some_ with
      ⟨⟨slot, arena⟩, taken, takes, slotted⟩ | ⟨refused, takes, byItself⟩
    · have taken : cachedSlot strings sourceIsStable field row.ownedArena
          (row.cache.keyTypes (row.keys.getOrInsert name).2)
            (row.cache.numberTypes (row.keys.getOrInsert name).2) =
            some (slot, arena) := taken
      rw [taken]
      refine decodes.step key slotted ?_ fun id _ => rfl
      rw [CachedTypes.after, if_pos takes]
    · -- The value is of another type, which the cache learns.
      have refused : cachedSlot strings sourceIsStable field row.ownedArena
          (row.cache.keyTypes (row.keys.getOrInsert name).2)
            (row.cache.numberTypes (row.keys.getOrInsert name).2) =
            none := refused
      rw [refused]
      rw [← byItself] at typed
      refine decodes.step key typed ?_ fun id apart => ?_
      · rw [ParseCache.types_learn, if_pos rfl, CachedTypes.after, if_neg (by simp [takes])]
      · rw [ParseCache.types_learn, if_neg apart]

/-- A row shows under each name what its last field shows, in the reading that the cache
leads to. -/
theorem field_parseJsonLine {sourceIsStable : Bool} (strings : Unescaping) (keys : KeyIndex)
    (cache : ParseCache)
    (ownedArena : Bytes) {line : JsonLine}
    (inFile : sourceIsStable = true → ∀ field ∈ line.fields, field.InFile data)
    (name : Bytes) :
    (parseJsonLine strings sourceIsStable keys cache ownedArena line).field data name =
      JsonField.lastShown strings
        (cache.typesOf (JsonField.keysAfter strings keys line.fields) name)
        (JsonField.named strings line.fields name) := by
  -- The induction is on the fields that are done.
  have start : Decodes strings data keys cache [] ⟨.empty, keys, cache, ownedArena⟩ := by
    refine ⟨rfl, fun _ member => absurd member List.not_mem_nil,
      ⟨fun name => ?_, fun id slot held => nomatch held⟩,
      fun _ _ _ => rfl, fun _ _ => rfl⟩
    cases keys.find name <;> rfl
  have decodes : ∀ rest done row, done ++ rest = line.fields →
    Decodes strings data keys cache done row →
      Decodes strings data keys cache line.fields
        (rest.foldl (parseJsonField strings sourceIsStable) row) := by
    intro rest
    induction rest with
    | nil =>
      intro done row parts decodes
      rw [← parts, List.append_nil]
      exact decodes
    | cons field rest ih =>
      intro done row parts decodes
      have member : field ∈ line.fields := by simp [← parts]
      refine ih (done ++ [field]) _ (by simpa using parts) ?_
      exact parseJsonField_decodes decodes (line.short field member) (fun stable =>
        inFile stable field member)
        (line.written field member)
  have done := decodes line.fields [] _ rfl start
  have reads := done.shows.reads name
  rw [done.keys] at reads
  rw [JsonRow.field]
  show ((JsonRow.keys _).find name |>.bind _ |>.map _) = _
  rw [parseJsonLine, done.keys, ← reads]

end Rows

/-- A line for a worker, with the key index and the arena as they are then. -/
structure JsonTask where
  keys : KeyIndex
  ownedArena : Bytes
  line : JsonLine

/-- The row of a task. -/
def JsonTask.row (strings : Unescaping) (sourceIsStable : Bool) (cache : ParseCache)
    (task : JsonTask) : JsonRow :=
  parseJsonLine strings sourceIsStable task.keys cache task.ownedArena task.line

/-- The same line, first in a new batch of a new worker. -/
def JsonTask.fresh (strings : Unescaping) (sourceIsStable : Bool) (task : JsonTask) : JsonRow :=
  parseJsonLine strings sourceIsStable .empty .empty [] task.line

/-- Each row shows what it shows with nothing cached. -/
def HistoryFree (strings : Unescaping) (sourceIsStable : Bool) (data : Bytes) :
    ParseCache → List JsonTask → Prop
  | _, [] => True
  | cache, task :: rest =>
    (∀ name, (task.row strings sourceIsStable cache).field data name =
      (task.fresh strings sourceIsStable).field data name) ∧
      HistoryFree strings sourceIsStable data (task.row strings sourceIsStable cache).cache rest

/-- Under each name of each line, the types that are cached then lead to the same reading of the
last field as nothing cached. -/
def ReadsAlike (strings : Unescaping) (sourceIsStable : Bool) : ParseCache → List JsonTask → Prop
  | _, [] => True
  | cache, task :: rest =>
    (∀ name, (cache.typesOf (JsonField.keysAfter strings task.keys task.line.fields)
      name).lastReading strings
        (JsonField.named strings task.line.fields name) =
      CachedTypes.empty.lastReading strings (JsonField.named strings task.line.fields name)) ∧
      ReadsAlike strings sourceIsStable (task.row strings sourceIsStable cache).cache rest

/-- The rows of a worker do not depend on its history exactly if no cached type reads a value in
another way. -/
theorem historyFree_iff (strings : Unescaping) {sourceIsStable : Bool} {data : Bytes}
    (cache : ParseCache)
    {tasks : List JsonTask}
    (inFile : sourceIsStable = true → ∀ task ∈ tasks, ∀ field ∈ task.line.fields,
    field.InFile data) :
    HistoryFree strings sourceIsStable data cache tasks ↔
      ReadsAlike strings sourceIsStable cache tasks := by
  induction tasks generalizing cache with
  | nil => exact Iff.rfl
  | cons task rest ih =>
    have here : sourceIsStable = true → ∀ field ∈ task.line.fields, field.InFile data :=
      fun stable => inFile stable task List.mem_cons_self
    -- Each task is compared by itself, and the cache goes on to the rest.
    refine and_congr (forall_congr' fun name => ?_) (ih _ fun stable other member =>
      inFile stable other (List.mem_cons_of_mem _ member))
    have nothing : ∀ keys, ParseCache.empty.typesOf keys name = .empty := by
      intro keys
      unfold ParseCache.typesOf
      cases keys.find name <;> rfl
    rw [JsonTask.row, JsonTask.fresh, field_parseJsonLine strings _ _ _ here,
      field_parseJsonLine strings _ _ _ here, nothing]
    exact JsonField.lastShown_eq_iff strings _ _ _

section Examples

/-- A line with one field. -/
def JsonLine.single (field : JsonField) (written : field.token ≠ [])
    (short : field.token.length < 2 ^ 32) : JsonLine where
  fields := [field]
  written := fun _ member => List.mem_singleton.mp member ▸ written
  short := fun _ member => List.mem_singleton.mp member ▸ short

/-- A text without escapes. -/
def plainText (raw : Bytes) : Option Bytes := if backslash ∈ raw then none else some raw

/-- It does not get longer. -/
theorem plainText_shorter (raw text : Bytes) (plain : plainText raw = some text) :
    text.length ≤ raw.length := by
  unfold plainText at plain
  split at plain
  · exact nomatch plain
  · rw [Option.some.inj plain]

/-- Texts without escapes stay as they are. -/
def plainTexts : Unescaping := ⟨plainText, fun _ plain => if_neg plain, plainText_shorter⟩

/-- A number under one key, five bytes into the file. -/
def numberField (literal : JsonNumber) : JsonField := ⟨bytes "a", .number literal, [], 5⟩

/-- A one-digit integer. -/
def digit (value : Nat) : JsonNumber :=
  ⟨[UInt8.ofNat (48 + value)], false, some value, .ofInt value⟩

/-- One and a half. -/
def oneAndHalf : JsonNumber := ⟨bytes "1.5", false, none, ⟨0x3FF8000000000000⟩⟩

/-- A digit on a line of its own. -/
def digitTask (keys : KeyIndex) (value : Nat) : JsonTask :=
  ⟨keys, [], .single (numberField (digit value)) nofun (show 1 < 2 ^ 32 by decide)⟩

/-- A fraction on a line of its own. -/
def fractionTask : JsonTask :=
  ⟨.empty, [], .single (numberField oneAndHalf) nofun (show 3 < 2 ^ 32 by decide)⟩

/-- A file that holds one object with one integer. -/
def digitFile : Bytes := bytes "\x7b\"a\":1\x7d"

/-- An integer behind an integer is read by itself. -/
theorem digitTask_historyFree :
    HistoryFree plainTexts true digitFile ((digitTask .empty 1).row plainTexts true .empty).cache
      [digitTask .empty 1] := by
  refine (historyFree_iff plainTexts _ fun _ task member field field_ => ?_).mpr ⟨fun name =>
    ?_, trivial⟩
  · -- The number stands between the braces of the line.
    obtain rfl := List.mem_singleton.mp member
    obtain rfl := List.mem_singleton.mp field_
    exact ⟨bytes "\x7b\"a\":", bytes "\x7d", by decide, by decide⟩
  · -- A name other than the one of the line has no field.
    by_cases same : name = bytes "a"
    · subst same
      decide
    · have nothing : JsonField.named plainTexts (digitTask .empty 1).line.fields name = [] := by
        refine List.filter_eq_nil_iff.mpr fun field member => ?_
        obtain rfl := List.mem_singleton.mp member
        simpa [JsonField.key, numberField, show backslash ∉ bytes "a" by decide] using Ne.symm same
      rw [nothing]
      rfl

/-- An integer behind a fraction becomes a floating point number. -/
theorem digitAfterFraction_notHistoryFree :
    ¬ HistoryFree plainTexts false [] .empty
      [fractionTask, digitTask (KeyIndex.empty.getOrInsert (bytes "a")).1 1] := by
  intro free
  have second := free.2.1 (bytes "a")
  revert second
  decide

end Examples

end Loglib
