import Mathlib

/-! The last items of a list, as a buffer of bounded size keeps them. -/

namespace Loglib

variable {α : Type*}

/-- The last items of a list. -/
theorem length_rtake (items : List α) (count : Nat) :
    (items.rtake count).length = min count items.length := by
  unfold List.rtake
  rw [List.length_drop]
  omega

/-- A short list is its own end. -/
theorem rtake_of_length_le {items : List α} {count : Nat} (short : items.length ≤ count) :
    items.rtake count = items := by
  unfold List.rtake
  rw [Nat.sub_eq_zero_of_le short, List.drop_zero]

/-- The end of a list reaches into its front part where the back part is too short. -/
theorem rtake_append (front back : List α) (count : Nat) :
    (front ++ back).rtake count = front.rtake (count - back.length) ++ back.rtake count := by
  unfold List.rtake
  rw [List.drop_append, List.length_append]
  -- The front part loses what the back part makes up for.
  have first : front.length + back.length - count = front.length - (count - back.length) ∨
      (front.length + back.length - count ≥ front.length ∧
        front.length - (count - back.length) ≥ front.length) := by
    omega
  have second : front.length + back.length - count - front.length = back.length - count := by omega
  rw [second]
  obtain same | ⟨past, pastToo⟩ := first
  · rw [same]
  · rw [List.drop_eq_nil_of_le past, List.drop_eq_nil_of_le pastToo]

/-- The end of an end. -/
theorem rtake_rtake (items : List α) (inner outer : Nat) :
    (items.rtake inner).rtake outer = items.rtake (min outer inner) := by
  unfold List.rtake
  rw [List.length_drop, List.drop_drop]
  congr 1
  omega

/-- What is dropped from the back part would not be reached anyway. -/
theorem rtake_append_rtake (front back : List α) {count inner : Nat} (le : count ≤ inner) :
    (front ++ back.rtake inner).rtake count = (front ++ back).rtake count := by
  rw [rtake_append, rtake_append, rtake_rtake, Nat.min_eq_left le, length_rtake]
  -- A back part that is cut leaves no room for the front part, and neither does a whole one.
  have room : count - min inner back.length = count - back.length := by omega
  rw [room]

/-- The end of a concatenation asks for nothing but the end of its front part. -/
theorem rtake_append_congr {front other : List α} {count : Nat}
    (same : front.rtake count = other.rtake count)
    (back : List α) : (front ++ back).rtake count = (other ++ back).rtake count := by
  rw [rtake_append, rtake_append]
  have fewer : min (count - back.length) count = count - back.length := by omega
  -- Both front parts are first cut to the end that they share.
  rw [← fewer, ← rtake_rtake, ← rtake_rtake, same]

/-- Fewer items of the same end. -/
theorem rtake_congr_le {items other : List α} {fewer count : Nat} (le : fewer ≤ count)
    (same : items.rtake count = other.rtake count) : items.rtake fewer = other.rtake fewer := by
  rw [← Nat.min_eq_left le, ← rtake_rtake, ← rtake_rtake, same]

end Loglib
