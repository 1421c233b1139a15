import Loglib.Parsers.LogfmtLine

/-! Which maps come back from the logfmt line that is written from them. -/

namespace Loglib

/-- A key that logfmt can write. -/
def ValidLogfmtKey (key : Bytes) : Prop := key ≠ [] ∧ key.all Logfmt.isKeyByte = true

/-- The same value, where integers of both signednesses are the same if they are one number. -/
def LogValue.SameTyped (value other : LogValue) : Prop :=
  value = other ∨ ∃ number, value.asInteger = some number ∧ other.asInteger = some number

/-- The line that is written from the map gives its keys with the same values, and no other key. -/
def LogfmtRoundTrips (scalars : ScalarText) (values : List (Bytes × LogValue)) : Prop :=
  ∃ record, parseLogfmtLine scalars (logfmtToString scalars values) = some record ∧
    (∀ entry ∈ values, ∃ read, record entry.1 = some read ∧ entry.2.SameTyped read) ∧
      ∀ name, name ∉ values.map Prod.fst → record name = none

/-- `std::isfinite`. -/
def Double.isFinite (value : Double) : Prop := value.magnitude < Double.infinityBits

/-- A double is printed as a text that a bare value can be, with its sign or a digit first, and that
is read as the same double. -/
structure ScalarText.PrintsExactly (scalars : ScalarText) (value : Double) : Prop where
  bare : (scalars.formatDouble value).all Logfmt.isBareByte = true
  first : ∃ byte, (scalars.formatDouble value).head? = some byte ∧
    (byte = ascii '-' ∨ isDecimalDigit byte = true)
  read : scalars.tryParseFiniteDouble (scalars.formatDouble value) = some value

/-- A text without quotes that is read as a boolean or a number. -/
def LooksTyped (scalars : ScalarText) (text : Bytes) : Prop :=
  text = bytes "true" ∨ text = bytes "false" ∨ (bareInteger text).isSome ∨
    (bareDouble scalars text).isSome

/-- The value keeps its type: a string that is written without quotes looks like no boolean and no
number, and a double is finite and is not written as an integer. -/
def KeepsType (scalars : ScalarText) : LogValue → Prop
  | .string text => bareValueIsSafe text = true → ¬LooksTyped scalars text
  | .double value => value.isFinite ∧ bareInteger (scalars.formatDouble value) = none
  | _ => True

namespace Logfmt

/-- What follows a written value: the end of the line, or a blank. -/
def AtValueEnd (rest : Bytes) : Prop := rest = [] ∨ rest.head? = some blank

section Scanning

variable {key text rest : Bytes}

/-- A value between quotes is read as the text that was written. -/
theorem scanValue_quoted (key text rest : Bytes) : scanValue key (appendQuotedString text ++ rest) =
    .field ⟨key, text, true, (escapeText text).contains escapeMark, false⟩ rest := by
  have inner : appendQuotedString text ++ rest = quotationMark ::
      (escapeText text ++ quotationMark :: rest) := by
    simp [appendQuotedString]
  -- The escapes are taken back, if there are any.
  have value : (if (escapeText text).contains escapeMark then unescapeText unknownEscape
    (escapeText text)
      else escapeText text) = text := by
    split
    · exact unescapeText_escapeText unknownEscape text
    · rename_i plain
      have unescaped : escapeMark ∉ escapeText text :=
        fun member => plain (List.contains_iff_mem.mpr member)
      have same : unescapeText unknownEscape (escapeText text) = escapeText text :=
        unescapeText_of_not_mem unescaped
      rw [← same, unescapeText_escapeText]
  have mark : endsValue quotationMark = false := by decide
  -- What stands between the marks is the escaped text.
  rw [inner, scanValue]
  simp only [mark, Bool.false_eq_true, if_false, if_true, untilMark_escapeText, value]

/-- A bare byte ends no value and opens no quotes. -/
theorem isBareByte_plain {byte : Byte} (bare : isBareByte byte = true) :
    endsValue byte = false ∧ byte ≠ quotationMark := by
  simp only [isBareByte, Bool.and_eq_true, decide_eq_true_eq, bne_iff_ne] at bare
  refine ⟨?_, bare.2⟩
  have above : 32 < byte.toNat := UInt8.lt_iff_toNat_lt.mp bare.1
  by_contra ends
  simp only [endsValue, Bool.not_eq_false, Bool.or_eq_true, decide_eq_true_eq] at ends
  -- Every byte that ends a value is a space or below one.
  rcases ends with (((((same | same) | same) | same) | same) | same) <;> subst same
    <;> revert above <;> decide

/-- A bare value ends where its bytes end. -/
theorem scanValue_bare (key : Bytes) (some_ : text ≠ []) (bare : text.all isBareByte = true)
    (ended : AtValueEnd rest) :
    scanValue key (text ++ rest) = .field ⟨key, text, false, false, false⟩ rest := by
  have each := List.all_eq_true.mp bare
  obtain ⟨first, more, rfl⟩ := List.exists_cons_of_ne_nil some_
  -- The first byte is no quotation mark, so the value is read up to a byte that ends it.
  obtain ⟨goesOn, unquoted⟩ := isBareByte_plain (each first List.mem_cons_self)
  -- Nothing of the rest belongs to the value.
  have stops : rest.takeWhile isBareByte = [] ∧ rest.dropWhile isBareByte = rest := by
    rcases ended with rfl | blank_
    · exact ⟨rfl, rfl⟩
    · cases rest with
      | nil => exact ⟨rfl, rfl⟩
      | cons byte others =>
        obtain rfl : byte = blank := by simpa using blank_
        have notBare : isBareByte blank = false := by decide
        simp [notBare]
  have taken : (first :: more ++ rest).takeWhile isBareByte = first :: more := by
    rw [List.takeWhile_append_of_pos each, stops.1, List.append_nil]
  have left : (first :: more ++ rest).dropWhile isBareByte = rest := by
    rw [List.dropWhile_append_of_pos each, stops.2]
  rw [List.cons_append] at taken left ⊢
  rw [scanValue]
  simp only [goesOn, Bool.false_eq_true, if_false, if_neg unquoted, taken, left]

/-- No value is null. -/
theorem scanValue_null (key : Bytes) (ended : AtValueEnd rest) :
    scanValue key rest = .field (nullField key) rest := by
  -- Nothing behind the sign, or a blank.
  rcases ended with rfl | blank_
  · rfl
  · cases rest with
    | nil => rfl
    | cons byte others =>
      obtain rfl : byte = blank := by simpa using blank_
      have ends : endsValue blank = true := by decide
      rw [scanValue]
      simp only [ends, if_true]

/-- A key and its equals sign lead to the value. -/
theorem scan_key (valid : ValidLogfmtKey key) (text : Bytes) :
    scan (key ++ equalsSign :: text) = scanValue key text := by
  -- A key has no byte that ends it, and the sign is none of its bytes.
  obtain ⟨some_, all⟩ := valid
  have each := List.all_eq_true.mp all
  have start : (key ++ equalsSign :: text).dropWhile (· ≤ blank) = key ++ equalsSign :: text := by
    obtain ⟨first, more, rfl⟩ := List.exists_cons_of_ne_nil some_
    have keyByte := each first List.mem_cons_self
    simp only [isKeyByte, Bool.and_eq_true, decide_eq_true_eq] at keyByte
    rw [List.cons_append, List.dropWhile_cons_of_neg (by simpa using keyByte.1.1)]
  have sign : isKeyByte equalsSign = false := by decide
  have taken : (key ++ equalsSign :: text).takeWhile isKeyByte = key := by
    rw [List.takeWhile_append_of_pos each]
    simp [sign]
  have left : (key ++ equalsSign :: text).dropWhile isKeyByte = equalsSign :: text := by
    rw [List.dropWhile_append_of_pos each]
    simp [sign]
  have nonempty : key ++ equalsSign :: text ≠ [] := by simp
  rw [scan]
  simp only [start, if_neg nonempty, taken, if_neg some_, left, if_true]

/-- A blank in front is skipped. -/
theorem scan_blank (line : Bytes) : scan (blank :: line) = scan line := by
  unfold scan
  rw [List.dropWhile_cons_of_pos (by decide)]

/-- A blank in front takes no turn. -/
theorem tokenizeFrom_blank (turns : Nat) (line : Bytes) :
    tokenizeFrom turns (blank :: line) = tokenizeFrom turns line := by
  cases turns with
  | zero => rfl
  | succ turns => rw [tokenizeFrom, tokenizeFrom, scan_blank]

end Scanning

section Values

variable {scalars : ScalarText}

/-- The value that is read where a value was written. -/
def readBack (scalars : ScalarText) : LogValue → LogValue
  | .monostate => .monostate
  | .timestamp microseconds => .string (scalars.timeStampToDateTimeString microseconds)
  | .string text => if bareValueIsSafe text then classifyBareScalar scalars text else .string text
  | .bool value => .bool value
  | .int64 value => classifyBareScalar scalars (decimalInt value.toInt)
  | .uint64 value => classifyBareScalar scalars (decimalInt value.toNat)
  | .double value =>
    if value.magnitude < Double.infinityBits then classifyBareScalar scalars
      (scalars.formatDouble value)
    else .string (scalars.formatDouble value)

/-- A digit can be in a bare value. -/
theorem isBareByte_of_digit {byte : Byte} (digit : isDecimalDigit byte = true) :
    isBareByte byte = true := by
  have bounds := isDecimalDigit_iff.mp digit
  simp only [isBareByte, Bool.and_eq_true, decide_eq_true_eq, bne_iff_ne, UInt8.lt_iff_toNat_lt]
  refine ⟨lt_of_lt_of_le (by decide) bounds.1, ?_⟩
  rintro rfl
  exact absurd bounds.1 (by decide)

/-- A printed integer is a bare value. -/
theorem decimalInt_bare (value : Int) :
    decimalInt value ≠ [] ∧ (decimalInt value).all isBareByte = true := by
  -- Digits and the sign are bare bytes.
  have digits : (decimal value.natAbs).all isBareByte = true :=
    List.all_eq_true.mpr fun _ member => isBareByte_of_digit (isDecimalDigit_of_mem_decimal member)
  unfold decimalInt
  split
  · refine ⟨List.cons_ne_nil _ _, ?_⟩
    rw [List.all_cons, digits]
    decide
  · exact ⟨decimal_ne_nil _, digits⟩

/-- A value that is safe is a bare value. -/
theorem bareValueIsSafe_bare {text : Bytes} (safe : bareValueIsSafe text = true) :
    text ≠ [] ∧ text.all isBareByte = true := by
  simp only [bareValueIsSafe, Bool.and_eq_true, decide_eq_true_eq] at safe
  refine ⟨safe.1, List.all_eq_true.mpr fun byte member => ?_⟩
  have each := List.all_eq_true.mp safe.2 byte member
  simp only [Bool.and_eq_true] at each
  simp only [isBareByte, Bool.and_eq_true]
  exact each.1.1

/-- A written value is read back, whatever it is. -/
theorem scanValue_append {value : LogValue} {rest : Bytes} (key : Bytes)
    (prints : ∀ double, value = .double double → double.isFinite → scalars.PrintsExactly double)
    (ended : AtValueEnd rest) :
    ∃ field, scanValue key (appendValueAsString scalars value ++ rest) = .field field rest ∧
      field.key = key ∧
      field.read scalars = readBack scalars value := by
  -- A bare text is classified, and a quoted one is the string.
  have bare {text : Bytes} (some_ : text ≠ []) (all : text.all isBareByte = true) :
      ∃ field, scanValue key (text ++ rest) = .field field rest ∧ field.key = key ∧
        field.read scalars = classifyBareScalar scalars text :=
    ⟨_, scanValue_bare key some_ all ended, rfl, rfl⟩
  have quoted (text : Bytes) : ∃ field,
    scanValue key (appendQuotedString text ++ rest) = .field field rest ∧
      field.key = key ∧ field.read scalars = .string text :=
        ⟨_, scanValue_quoted key text rest, rfl, rfl⟩
  cases value with
  | monostate => exact ⟨_, scanValue_null key ended, rfl, rfl⟩
  | timestamp microseconds => exact quoted _
  | string text =>
    cases safe : bareValueIsSafe text with
    | true =>
      obtain ⟨some_, all⟩ := bareValueIsSafe_bare safe
      simpa [appendValueAsString, readBack, safe] using bare some_ all
    | false => simpa [appendValueAsString, readBack, safe] using quoted text
  | bool value =>
    cases value with
    | true => exact @bare (bytes "true") (by decide) (by decide)
    | false => exact @bare (bytes "false") (by decide) (by decide)
  | int64 value => exact bare (decimalInt_bare _).1 (decimalInt_bare _).2
  | uint64 value => exact bare (decimalInt_bare _).1 (decimalInt_bare _).2
  | double value =>
    by_cases finite : value.magnitude < Double.infinityBits
    · have exact_ := prints value rfl finite
      have some_ : scalars.formatDouble value ≠ [] := by
        obtain ⟨byte, head, -⟩ := exact_.first
        intro none_
        rw [none_] at head
        cases head
      simpa [appendValueAsString, readBack, finite] using bare some_ exact_.bare
    · simpa [appendValueAsString, readBack, finite] using quoted (scalars.formatDouble value)

end Values

section Lines

variable {scalars : ScalarText} {entries : List (Bytes × LogValue)}

/-- A pair that was read is that of the entry. -/
def Reads (scalars : ScalarText) (entry : Bytes × LogValue) (field : LogfmtField) : Prop :=
  field.key = entry.1 ∧ field.read scalars = readBack scalars entry.2

/-- With a turn for each pair and one more, the pairs come back. -/
theorem tokenizeFrom_appendPairs (valid : ∀ entry ∈ entries, ValidLogfmtKey entry.1)
    (prints : ∀ entry ∈ entries, ∀ double, entry.2 = .double double → double.isFinite →
    scalars.PrintsExactly double)
    {turns : Nat} (enough : entries.length < turns) :
    ∃ fields, tokenizeFrom turns (appendPairs scalars entries) = (fields, true) ∧
      List.Forall₂ (Reads scalars) entries fields := by
  induction entries generalizing turns with
  -- No turn is used where nothing is left.
  | nil =>
    obtain ⟨turns, rfl⟩ : ∃ fewer, turns = fewer + 1 := ⟨turns - 1, by omega⟩
    exact ⟨[], rfl, .nil⟩
  | cons entry entries ih =>
    obtain ⟨turns, rfl⟩ : ∃ fewer, turns = fewer + 1 := ⟨turns - 1, by omega⟩
    rw [List.length_cons, Nat.add_lt_add_iff_right] at enough
    obtain ⟨fields, others, reads⟩ :=
      ih (fun other member => valid other (List.mem_cons_of_mem entry member))
      (fun other member => prints other (List.mem_cons_of_mem entry member)) enough
    -- A pair is read up to what ends its value, and the others are read from there.
    have one {rest : Bytes} (ended : AtValueEnd rest)
      (tail : tokenizeFrom turns rest = (fields, true)) :
        ∃ all, tokenizeFrom (turns + 1) (appendPair scalars entry ++ rest) = (all, true) ∧
          List.Forall₂ (Reads scalars) (entry :: entries) all := by
      obtain ⟨field, scanned, key, read⟩ :=
        scanValue_append entry.1 (prints entry List.mem_cons_self) ended
      refine ⟨field :: fields, ?_, .cons ⟨key, read⟩ reads⟩
      have pair : appendPair scalars entry ++ rest =
          entry.1 ++ equalsSign :: (appendValueAsString scalars entry.2 ++ rest) := by
        simp [appendPair]
      rw [pair, tokenizeFrom, scan_key (valid entry List.mem_cons_self), scanned]
      simp only [tail]
    cases entries with
    | nil =>
      have alone := @one [] (.inl rfl) others
      rwa [List.append_nil] at alone
    | cons next rest => exact one (.inr rfl) (by rw [tokenizeFrom_blank, others])

/-- A line has at least as many bytes as pairs. -/
theorem length_le_appendPairs (scalars : ScalarText) (entries : List (Bytes × LogValue)) :
    entries.length ≤ (appendPairs scalars entries).length := by
  -- Each pair has at least its sign, and blanks stand between them.
  induction entries with
  | nil => exact Nat.le_refl 0
  | cons entry entries ih =>
    cases entries with
    | nil =>
      simp only [appendPairs, appendPair, List.length_append, List.length_cons, List.length_nil]
      omega
    | cons next rest =>
      simp only [appendPairs, List.length_append, List.length_cons] at ih ⊢
      omega

/-- With distinct keys, the record has the value of each pair, and what it had elsewhere. -/
theorem record_of_reads {fields : List LogfmtField}
    (reads : List.Forall₂ (Reads scalars) entries fields)
    (distinct : (entries.map Prod.fst).Nodup) (record : LogfmtRecord) :
    (∀ entry ∈ entries, fields.foldl (emitField scalars) record entry.1 =
      some (readBack scalars entry.2)) ∧
      ∀ name, name ∉ entries.map Prod.fst → fields.foldl
        (emitField scalars) record name = record name := by
  induction reads generalizing record with
  | nil => exact ⟨fun _ member => absurd member List.not_mem_nil, fun _ _ => rfl⟩
  | @cons entry field entries fields first _ ih =>
    rw [List.map_cons, List.nodup_cons] at distinct
    obtain ⟨inside, outside⟩ := ih distinct.2 (emitField scalars record field)
    refine ⟨fun other member => ?_, fun name absent => ?_⟩
    · rw [List.foldl_cons]
      rcases List.mem_cons.mp member with rfl | later
      · -- The field is set once, for the key comes up no more.
        rw [outside _ distinct.1, emitField, first.1, Function.update_self, first.2]
      · exact inside other later
    · rw [List.map_cons, List.mem_cons, not_or] at absent
      rw [List.foldl_cons, outside name absent.2, emitField, first.1,
        Function.update_of_ne absent.1]

end Lines

section Types

variable {scalars : ScalarText}

/-- A text that looks like no boolean and no number stays a string. -/
theorem classifyBareScalar_string (scalars : ScalarText) {text : Bytes} (some_ : text ≠ []) :
    classifyBareScalar scalars text = .string text ↔ ¬LooksTyped scalars text := by
  unfold classifyBareScalar LooksTyped
  rw [if_neg some_]
  by_cases isTrue : text = bytes "true"
  · simp [isTrue]
  · by_cases isFalse : text = bytes "false"
    · simp [isFalse, bytes]
    · rw [if_neg isTrue, if_neg isFalse]
      -- Neither word fits, so the text is tried as an integer, then as a double.
      cases integer : bareInteger text with
      | some read =>
        obtain ⟨number, isInteger⟩ := bareInteger_asInteger integer
        have differs : read ≠ .string text := by
          rintro rfl
          cases isInteger
        simp [isTrue, isFalse, differs]
      | none =>
        cases double : bareDouble scalars text with
        | some read =>
          obtain ⟨value, rfl⟩ := bareDouble_eq double
          simp [isTrue, isFalse]
        | none => simp [isTrue, isFalse]

/-- A text with a sign or a digit first is no boolean. -/
theorem classifyBareScalar_number {text : Bytes} {first : Byte} (head : text.head? = some first)
    (begins : first = ascii '-' ∨ isDecimalDigit first = true) :
    classifyBareScalar scalars text = ((bareInteger text).orElse fun _ =>
      bareDouble scalars text).getD (.string text) := by
  -- The words start with letters.
  have letters : first ≠ ascii 't' ∧ first ≠ ascii 'f' := by
    refine ⟨?_, ?_⟩ <;>
    · rintro rfl
      exact absurd begins (by decide)
  unfold classifyBareScalar
  rw [if_neg, if_neg, if_neg]
  · rintro rfl
    exact letters.2 (Option.some.inj head).symm
  · rintro rfl
    exact letters.1 (Option.some.inj head).symm
  · rintro rfl
    cases head

/-- An integer comes back as the same integer. -/
theorem classifyBareScalar_decimalInt (scalars : ScalarText) {value : Int} (low : -2 ^ 63 ≤ value)
    (high : value < 2 ^ 64) :
    ∃ read, classifyBareScalar scalars (decimalInt value) = read ∧ read.asInteger = some value := by
  obtain ⟨read, integer, same⟩ := bareInteger_decimalInt low high
  -- The text of an integer starts with its sign or a digit, so it is no word.
  obtain ⟨first, head, begins⟩ : ∃ first, (decimalInt value).head? = some first ∧
      (first = ascii '-' ∨ isDecimalDigit first = true) := by
    unfold decimalInt
    split
    · exact ⟨ascii '-', rfl, .inl rfl⟩
    · obtain ⟨first, head, digit⟩ := head?_decimal value.natAbs
      exact ⟨first, head, .inr digit⟩
  refine ⟨read, ?_, same⟩
  rw [classifyBareScalar_number head begins, integer]
  rfl

/-- A value comes back as the same value exactly if it keeps its type. -/
theorem sameTyped_readBack_iff {value : LogValue}
    (written : ∀ microseconds, value ≠ .timestamp microseconds)
    (prints : ∀ double, value = .double double → double.isFinite → scalars.PrintsExactly double) :
    value.SameTyped (readBack scalars value) ↔ KeepsType scalars value := by
  cases value with
  | monostate => simp [LogValue.SameTyped, readBack, KeepsType]
  | timestamp microseconds => exact absurd rfl (written microseconds)
  | bool value => simp [LogValue.SameTyped, readBack, KeepsType]
  | string text =>
    -- Quoted, the text comes back as it is; bare, it must not look like another type.
    have noInteger : ∀ number : Int, LogValue.asInteger (.string text) ≠ some number := by
      simp [LogValue.asInteger]
    simp only [LogValue.SameTyped, KeepsType, readBack]
    cases safe : bareValueIsSafe text with
    | true =>
      have classified := classifyBareScalar_string scalars (bareValueIsSafe_bare safe).1
      simp [← classified, LogValue.asInteger, eq_comm]
    | false => simp
  | int64 value =>
    -- Both kinds of integers are read by their value.
    have low := value.le_toInt
    have high := value.toInt_lt
    obtain ⟨read, same, integer⟩ := classifyBareScalar_decimalInt scalars low (by omega)
    refine iff_of_true (.inr ⟨value.toInt, rfl, ?_⟩) trivial
    rw [readBack, same, integer]
  | uint64 value =>
    have high := value.toNat_lt
    obtain ⟨read, same, integer⟩ := classifyBareScalar_decimalInt scalars
      (show -2 ^ 63 ≤ ((value.toNat : Nat) : Int) by omega) (by omega)
    refine iff_of_true (.inr ⟨value.toNat, rfl, ?_⟩) trivial
    rw [readBack, same, integer]
  | double value =>
    simp only [KeepsType, readBack]
    by_cases finite : value.magnitude < Double.infinityBits
    · have exact_ := prints value rfl finite
      obtain ⟨first, head, begins⟩ := exact_.first
      rw [if_pos finite, classifyBareScalar_number head begins]
      cases integer : bareInteger (scalars.formatDouble value) with
      | some read =>
        obtain ⟨number, isInteger⟩ := bareInteger_asInteger integer
        -- A double without a point is read as an integer.
        have differs : LogValue.double value ≠ read := by
          rintro rfl
          cases isInteger
        simp [LogValue.SameTyped, LogValue.asInteger, differs]
      | none =>
        have double : bareDouble scalars (scalars.formatDouble value) = some (.double value) := by
          -- The text is one that the reader of doubles looks at.
          have begins' : first = ascii '-' ∨ first = ascii '+' ∨ first = ascii '.' ∨
              isDecimalDigit first = true := by
            rcases begins with sign | digit
            · exact .inl sign
            · exact .inr (.inr (.inr digit))
          rw [bareDouble, head]
          simp only [if_pos begins', exact_.read, Option.map_some]
        simp [LogValue.SameTyped, double, Double.isFinite, finite]
    · rw [if_neg finite]
      simp [LogValue.SameTyped, LogValue.asInteger, Double.isFinite, finite]

end Types

end Logfmt

section RoundTrip

variable {scalars : ScalarText} {values : List (Bytes × LogValue)}

/-- The map comes back exactly if each value is read back as it was. -/
theorem logfmtRoundTrips_iff_sameTyped (distinct : (values.map Prod.fst).Nodup)
    (valid : ∀ entry ∈ values, ValidLogfmtKey entry.1)
    (prints : ∀ entry ∈ values, ∀ double, entry.2 = .double double → double.isFinite →
    scalars.PrintsExactly double) :
    LogfmtRoundTrips scalars values ↔ ∀ entry ∈ values, entry.2.SameTyped
      (Logfmt.readBack scalars entry.2) := by
  -- The entries are written in the order of their keys.
  have perm : (values.mergeSort fun first second =>
      !decide (byteKey second.1 < byteKey first.1)).Perm values :=
    List.mergeSort_perm values _
  unfold LogfmtRoundTrips parseLogfmtLine tokenizeLogfmtLine logfmtToString
  generalize (values.mergeSort fun first second => !decide (byteKey second.1 < byteKey first.1)) =
    sorted at perm ⊢
  have keys := perm.map Prod.fst
  obtain ⟨fields, tokens, reads⟩ :=
    Logfmt.tokenizeFrom_appendPairs (fun entry member => valid entry (perm.mem_iff.mp member))
    (fun entry member => prints entry (perm.mem_iff.mp member))
    (Nat.lt_succ_of_le (Logfmt.length_le_appendPairs scalars sorted))
  obtain ⟨inside, outside⟩ :=
    Logfmt.record_of_reads reads (keys.nodup_iff.mpr distinct) fun _ => none
  rw [tokens]
  simp only [if_true, Option.some.injEq]
  constructor
  · rintro ⟨record, rfl, same, -⟩ entry member
    obtain ⟨read, found, sameTyped⟩ := same entry member
    rw [inside entry (perm.mem_iff.mpr member)] at found
    exact (Option.some.inj found) ▸ sameTyped
  · intro same
    refine ⟨_, rfl, fun entry member =>
      ⟨_, inside entry (perm.mem_iff.mpr member), same entry member⟩, ?_⟩
    exact fun name absent => outside name fun member => absent (keys.mem_iff.mp member)

/-- A map comes back from its line exactly if no string that is written without quotes looks like a
boolean or a number, and every double is finite and is not written as an integer. -/
theorem logfmtRoundTrips_iff (distinct : (values.map Prod.fst).Nodup)
    (valid : ∀ entry ∈ values, ValidLogfmtKey entry.1)
    (written : ∀ entry ∈ values, ∀ microseconds, entry.2 ≠ .timestamp microseconds)
    (prints : ∀ entry ∈ values, ∀ double, entry.2 = .double double → double.isFinite →
    scalars.PrintsExactly double) :
    LogfmtRoundTrips scalars values ↔ ∀ entry ∈ values, KeepsType scalars entry.2 := by
  rw [logfmtRoundTrips_iff_sameTyped distinct valid prints]
  refine forall_congr' fun entry => imp_congr_right fun member => ?_
  exact Logfmt.sameTyped_readBack_iff (written entry member) (prints entry member)

/-- The number 1.5. -/
def threeHalves : Double := ⟨4609434218613702656⟩

/-- Libraries that print and read the number 1.5. -/
def threeHalvesText : ScalarText where
  formatDouble _ := bytes "1.5"
  tryParseFiniteDouble text := if text = bytes "1.5" then some threeHalves else none
  timeStampToDateTimeString _ := []

/-- A map with a value of each type. -/
def mixedValues : List (Bytes × LogValue) :=
  [(bytes "msg", .string (bytes "a=\"b\" c")), (bytes "code", .string (bytes "v42")),
    (bytes "n", .int64 (-5)),
    (bytes "ok", .bool true), (bytes "d", .double threeHalves)]

/-- One value of each type, `3/2` among them. -/
theorem logfmtRoundTrips_mixedValues :
    LogfmtRoundTrips threeHalvesText mixedValues ↔ ∀ entry ∈ mixedValues,
      KeepsType threeHalvesText entry.2 := by
  refine logfmtRoundTrips_iff (by decide) ?_ ?_ ?_
  · intro entry member
    simp only [mixedValues, List.mem_cons, List.not_mem_nil, or_false] at member
    -- The five entries one by one.
    rcases member with rfl | rfl | rfl | rfl | rfl <;> exact ⟨by decide, by decide⟩
  · intro entry member
    simp only [mixedValues, List.mem_cons, List.not_mem_nil, or_false] at member
    rcases member with rfl | rfl | rfl | rfl | rfl <;> simp
  · intro entry member double same _
    simp only [mixedValues, List.mem_cons, List.not_mem_nil, or_false] at member
    rcases member with rfl | rfl | rfl | rfl | rfl <;> cases same
    exact ⟨by decide, ⟨ascii '1', rfl, .inr (by decide)⟩, by decide⟩

/-- The string `42` comes back as a number. -/
theorem logfmtRoundTrips_not_number_text :
    ¬LogfmtRoundTrips threeHalvesText [(bytes "pid", .string (bytes "42"))] := by
  have valid : ∀ entry ∈ [(bytes "pid", LogValue.string (bytes "42"))], ValidLogfmtKey entry.1 := by
    intro entry member
    obtain rfl := List.mem_singleton.mp member
    exact ⟨by decide, by decide⟩
  -- The text is read back as a number, which is another type.
  rw [logfmtRoundTrips_iff_sameTyped (by decide) valid]
  · intro same
    have read : Logfmt.readBack threeHalvesText (.string (bytes "42")) = .uint64 42 := by decide
    have differs := same _ List.mem_cons_self
    rw [read] at differs
    rcases differs with equal | ⟨number, none_, -⟩
    · cases equal
    · cases none_
  · intro entry member double same _
    obtain rfl := List.mem_singleton.mp member
    cases same

end RoundTrip

end Loglib
