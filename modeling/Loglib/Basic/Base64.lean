import Loglib.Basic.Bytes

/-! Base64: three bytes as four letters, and the decoder that passes over foreign characters. -/

namespace Loglib

namespace Base64

/-- The letters for the numbers below 64. -/
def alphabet : Bytes := bytes "ABCDEFGHIJKLMNOPQRSTUVWXYZabcdefghijklmnopqrstuvwxyz0123456789+/"

/-- The letter of a number below 64. -/
def letter (digit : Nat) : Byte := alphabet.getD digit 0

/-- The number a letter stands for, `none` for any other character. -/
def value (character : Byte) : Option Nat :=
  if ascii 'A' ≤ character ∧ character ≤ ascii 'Z' then some (character.toNat - (ascii 'A').toNat)
  else if ascii 'a' ≤ character ∧
    character ≤ ascii 'z' then some (character.toNat - (ascii 'a').toNat + 26)
  else if ascii '0' ≤ character ∧
    character ≤ ascii '9' then some (character.toNat - (ascii '0').toNat + 52)
  else if character = ascii '+' then some 62
  else if character = ascii '/' then some 63
  else none

/-- The character that fills up the last group. -/
def padding : Byte := ascii '='

/-- Four characters for each three bytes. -/
def encode : Bytes → Bytes
  | [] => []
  | [first] =>
    -- One or two bytes at the end are filled up with padding.
    let chunk := first.toNat * 0x10000
    [letter (chunk / 0x40000 % 64), letter (chunk / 0x1000 % 64), padding, padding]
  | [first, second] =>
    let chunk := first.toNat * 0x10000 + second.toNat * 0x100
    [letter (chunk / 0x40000 % 64), letter (chunk / 0x1000 % 64),
      letter (chunk / 0x40 % 64), padding]
  | first :: second :: third :: rest =>
    let chunk := first.toNat * 0x10000 + second.toNat * 0x100 + third.toNat
    letter (chunk / 0x40000 % 64) :: letter (chunk / 0x1000 % 64) :: letter (chunk / 0x40 % 64) ::
      letter (chunk % 64) :: encode rest

/-- Six bits a letter, and a byte whenever eight bits are there. -/
def decodeFrom (buffer bits : Nat) : Bytes → Bytes
  | [] => []
  | character :: rest =>
    match value character with
    | none => decodeFrom buffer bits rest
    | some digit =>
      if 8 ≤ bits + 6 then
        UInt8.ofNat ((buffer * 64 + digit) / 2 ^ (bits + 6 - 8)) ::
          decodeFrom ((buffer * 64 + digit) % 2 ^ (bits + 6 - 8)) (bits + 6 - 8) rest
      else decodeFrom (buffer * 64 + digit) (bits + 6) rest

/-- The bytes of a text. -/
def decode (text : Bytes) : Bytes := decodeFrom 0 0 text

/-- A letter reads back as its number. -/
theorem value_letter {digit : Nat} (small : digit < 64) : value (letter digit) = some digit := by
  have all : ∀ digit : Fin 64, value (letter digit) = some digit.val := by decide +kernel
  exact all ⟨digit, small⟩

/-- The padding is passed over. -/
theorem value_padding : value padding = none := by decide

/-- One letter, while fewer than two bits are in the buffer. -/
theorem decodeFrom_letter_of_lt {buffer bits digit : Nat} (small : digit < 64) (few : bits < 2)
    (rest : Bytes) :
    decodeFrom buffer bits (letter digit :: rest) = decodeFrom (buffer * 64 + digit)
      (bits + 6) rest := by
  rw [decodeFrom, value_letter small]
  exact if_neg (by omega)

/-- One letter that completes a byte. -/
theorem decodeFrom_letter_of_le {buffer bits digit : Nat} (small : digit < 64) (enough : 2 ≤ bits)
    (rest : Bytes) :
    decodeFrom buffer bits (letter digit :: rest) = UInt8.ofNat
      ((buffer * 64 + digit) / 2 ^ (bits - 2)) ::
      decodeFrom ((buffer * 64 + digit) % 2 ^ (bits - 2)) (bits - 2) rest := by
  rw [decodeFrom, value_letter small]
  have same : bits + 6 - 8 = bits - 2 := by omega
  simp only [same]
  exact if_pos (by omega)

/-- What is encoded reads back. -/
theorem decode_encode (data : Bytes) : decode (encode data) = data := by
  have back : ∀ {number : Nat} {byte : Byte}, number = byte.toNat → UInt8.ofNat number = byte := by
    rintro _ byte rfl
    exact UInt8.ofNat_toNat
  have bound : ∀ byte : Byte, byte.toNat < 256 := UInt8.toNat_lt
  -- The recursion is that of the encoder: each group leaves the buffer empty.
  induction data using encode.induct with
  | case1 => rfl
  | case2 first =>
    have := bound first
    simp only [encode, decode]
    rw [decodeFrom_letter_of_lt (Nat.mod_lt _ (by decide)) (by decide),
      decodeFrom_letter_of_le (Nat.mod_lt _ (by decide)) (by decide)]
    simp only [decodeFrom, value_padding]
    congr 1
    exact back (by omega)
  | case3 first second =>
    have := bound first
    have := bound second
    simp only [encode, decode]
    rw [decodeFrom_letter_of_lt (Nat.mod_lt _ (by decide)) (by decide),
      decodeFrom_letter_of_le (Nat.mod_lt _ (by decide)) (by decide),
      decodeFrom_letter_of_le (Nat.mod_lt _ (by decide)) (by decide)]
    simp only [decodeFrom, value_padding]
    congr 1
    · exact back (by omega)
    · congr 1
      exact back (by omega)
  | case4 first second third rest ih =>
    have := bound first
    have := bound second
    have := bound third
    simp only [encode, decode] at ih ⊢
    rw [decodeFrom_letter_of_lt (Nat.mod_lt _ (by decide)) (by decide),
      decodeFrom_letter_of_le (Nat.mod_lt _ (by decide)) (by decide),
      decodeFrom_letter_of_le (Nat.mod_lt _ (by decide)) (by decide),
      decodeFrom_letter_of_le (Nat.mod_lt _ (by decide)) (by decide)]
    have empty : ∀ number, number % 2 ^ (0 + 6 - 2 - 2 - 2) = 0 := fun number => Nat.mod_one number
    rw [empty]
    congr 1
    · exact back (by omega)
    · congr 1
      · exact back (by omega)
      · congr 1
        exact back (by omega)

/-- The length of what is encoded. -/
theorem length_encode (data : Bytes) : (encode data).length = (data.length + 2) / 3 * 4 := by
  -- Three bytes at a time; one or two at the end are padded.
  induction data using encode.induct with
  | case1 => rfl
  | case2 first => simp [encode]
  | case3 first second => simp [encode]
  | case4 first second third rest ih =>
    simp only [encode, List.length_cons, ih]
    omega

/-- A letter is a printable ASCII character other than the quote and the backslash. -/
def Plain (character : Byte) : Prop :=
  0x20 ≤ character ∧ character < 0x80 ∧ character ≠ ascii '"' ∧ character ≠ ascii '\\'

/-- An encoded text has plain characters only. -/
theorem plain_of_mem_encode {data : Bytes} {character : Byte} (member : character ∈ encode data) :
    Plain character := by
  -- A letter of any six bits is plain, and so is the padding.
  have letters : ∀ digit, Plain (letter (digit % 64)) := by
    intro digit
    have all : ∀ digit : Fin 64, Plain (letter digit) := by unfold Plain; decide +kernel
    exact all ⟨digit % 64, Nat.mod_lt _ (by decide)⟩
  have fills : Plain padding := by unfold Plain; decide
  -- One, two or three bytes make four letters, and the rest follows.
  induction data using encode.induct with
  | case1 => cases member
  | case2 first =>
    simp only [encode, List.mem_cons, List.not_mem_nil, or_false] at member
    rcases member with rfl | rfl | rfl | rfl <;> first | exact fills | exact letters _
  | case3 first second =>
    simp only [encode, List.mem_cons, List.not_mem_nil, or_false] at member
    rcases member with rfl | rfl | rfl | rfl <;> first | exact fills | exact letters _
  | case4 first second third rest ih =>
    simp only [encode, List.mem_cons] at member
    rcases member with rfl | rfl | rfl | rfl | later
    · exact letters _
    · exact letters _
    · exact letters _
    · exact letters _
    · exact ih later

end Base64

end Loglib
