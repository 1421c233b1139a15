import Mathlib

/-! Unicode text, ordered by its UTF-16 code units. -/

namespace Loglib

/-- Unicode text; its order is that of the UTF-16 code units. -/
structure Utf16Text where
  chars : List Char
deriving DecidableEq

namespace Utf16Text

/-- The text of a literal. -/
def ofString (literal : String) : Utf16Text := ⟨literal.toList⟩

/-- The code units of a character: itself, or a surrogate pair. -/
def charUnits (character : Char) : List Nat :=
  if character.toNat < 0x10000 then [character.toNat]
  else [0xD800 + (character.toNat - 0x10000) / 0x400, 0xDC00 + (character.toNat - 0x10000) % 0x400]

/-- The code units of a text. -/
def units (text : Utf16Text) : List Nat := text.chars.flatMap charUnits

/-- A character can be read off the front of the code units. -/
theorem charUnits_append {first second : Char} {rest others : List Nat}
    (same : charUnits first ++ rest = charUnits second ++ others) :
    first = second ∧ rest = others := by
  have small : ∀ character : Char, character.toNat < 0xD800 ∨ 0xDFFF < character.toNat ∧
      character.toNat < 0x110000 :=
    fun character => character.valid
  -- A character of one unit is no surrogate, so it is not the front of a pair.
  have one := small first
  have two := small second
  simp only [charUnits] at same
  split at same <;> split at same
  · obtain ⟨equal, tails⟩ := List.cons.inj same
    exact ⟨Char.toNat_inj.mp equal, tails⟩
  · obtain ⟨equal, -⟩ := List.cons.inj same
    omega
  · obtain ⟨equal, -⟩ := List.cons.inj same
    omega
  · obtain ⟨high, tails⟩ := List.cons.inj same
    obtain ⟨low, ends⟩ := List.cons.inj tails
    refine ⟨Char.toNat_inj.mp ?_, ends⟩
    omega

/-- The code units determine the text. -/
theorem units_injective : Function.Injective units := by
  rintro ⟨first⟩ ⟨second⟩ same
  simp only [units] at same
  -- A character is one unit or two, so no text but the empty one has no units.
  have nonempty : ∀ character : Char, charUnits character ≠ [] := fun character => by
    rw [charUnits]; split <;> simp
  congr
  induction first generalizing second with
  | nil =>
    cases second with
    | nil => rfl
    | cons head tail => simp [nonempty] at same
  | cons head tail ih =>
    cases second with
    | nil => simp [nonempty] at same
    | cons other others =>
      simp only [List.flatMap_cons] at same
      obtain ⟨rfl, tails⟩ := charUnits_append same
      rw [ih others tails]

/-- `QString::operator<` compares the units. -/
instance : LinearOrder Utf16Text := LinearOrder.lift' units units_injective

/-- Another text behind a text. -/
def append (text : Utf16Text) (suffix : String) : Utf16Text := ⟨text.chars ++ suffix.toList⟩

/-- A suffix keeps texts apart. -/
theorem append_injective (suffix : String) : Function.Injective (append · suffix) := by
  rintro ⟨first⟩ ⟨second⟩ same
  simpa [append] using same

example : (⟨[Char.ofNat 0x10000]⟩ : Utf16Text) < ⟨[Char.ofNat 0xFF61]⟩ := by decide

end Utf16Text

end Loglib
