import Loglib.Basic.PackedBits
import Loglib.Order.IndexSort

/-! Sets of rows as packed 64-bit words, with no bit set past the last row. -/

namespace Loglib

open PackedBits

/-- Number of words that hold one bit for each row. -/
def wordCount (rowCount : Nat) : Nat := (rowCount + 63) / 64

/-- A set of rows below `rowCount`. -/
structure RowBitset (rowCount : Nat) where
  words : List (BitVec 64)
  sized : words.length = wordCount rowCount
  masked : ∀ row, rowCount ≤ row → testBit words row = false

namespace RowBitset

variable {rowCount : Nat}

section Masking

/-- `MaskTail`: clear the bits past the last row. -/
def maskTail (rowCount : Nat) (words : List (BitVec 64)) : List (BitVec 64) :=
  if words.isEmpty then words
  else
    let tail := rowCount % 64
    if tail = 0 then words
    else words.modify (words.length - 1) fun word => word &&& ((1 : BitVec 64) <<< tail - 1)

/-- Masking keeps the number of words. -/
@[simp] theorem length_maskTail (rowCount : Nat) (words : List (BitVec 64)) :
    (maskTail rowCount words).length = words.length := by
  unfold maskTail
  -- Only the last word is masked, if any.
  dsimp only
  split
  · rfl
  · split
    · rfl
    · exact List.length_modify _ _ _

/-- Masking keeps exactly the bits of the rows. -/
theorem testBit_maskTail {words : List (BitVec 64)} (sized : words.length = wordCount rowCount)
    (row : Nat) :
    testBit (maskTail rowCount words) row = (testBit words row && decide (row < rowCount)) := by
  unfold wordCount at sized
  by_cases inside : row / 64 < words.length
  · have nonempty : words.isEmpty = false := by
      cases words with
      | nil => simp at inside
      | cons => rfl
    unfold maskTail
    rw [if_neg (by simp [nonempty])]
    dsimp only
    by_cases whole : rowCount % 64 = 0
    · -- The last word is full, so every bit inside the words is a row.
      have isRow : row < rowCount := by omega
      simp [whole, isRow]
    · rw [if_neg whole]
      unfold testBit
      by_cases last : words.length - 1 = row / 64
      · -- In the last word the mask keeps what lies below the tail.
        rw [last, List.getElem?_modify_eq, List.getElem?_eq_getElem inside]
        have belowTail : row % 64 < rowCount % 64 ↔ row < rowCount := by omega
        simp only [Option.map_eq_map, Option.map_some, Option.getD_some, BitVec.getLsbD_and,
          getLsbD_mask (Nat.mod_lt rowCount (by decide : 0 < 64)), belowTail]
      · -- Every bit of an earlier word is a row.
        have isRow : row < rowCount := by omega
        rw [List.getElem?_modify_ne _ _ last]
        simp [isRow]
  · -- Past the words there is nothing to mask.
    have unset : ∀ other : List (BitVec 64), other.length = words.length →
        testBit other row = false := by
      intro other same
      unfold testBit
      rw [List.getElem?_eq_none (by omega)]
      simp
    rw [unset _ (length_maskTail rowCount words), unset words rfl, Bool.false_and]

/-- Masking clears the tail. -/
theorem maskTail_masked {words : List (BitVec 64)} (sized : words.length = wordCount rowCount)
    (row : Nat) (past : rowCount ≤ row) : testBit (maskTail rowCount words) row = false := by
  rw [testBit_maskTail sized]
  simp [Nat.not_lt.mpr past]

/-- Words cut to the rows. -/
def ofWords (words : List (BitVec 64)) (sized : words.length = wordCount rowCount) :
    RowBitset rowCount where
  words := maskTail rowCount words
  sized := (length_maskTail rowCount words).trans sized
  masked := maskTail_masked sized

end Masking

section Operations

/-- The row is in the set. -/
def test (bits : RowBitset rowCount) (row : Nat) : Bool := testBit bits.words row

/-- No rows. -/
def empty (rowCount : Nat) : RowBitset rowCount where
  words := List.replicate (wordCount rowCount) 0
  sized := List.length_replicate
  masked row _ := testBit_replicate_zero _ row

/-- A row's word is among the words. -/
theorem word_lt (row : Fin rowCount) : row.val / 64 < wordCount rowCount := by
  unfold wordCount
  have := row.isLt
  omega

/-- Setting a row leaves the tail alone. -/
theorem setBit_masked (bits : RowBitset rowCount) (row : Fin rowCount) (tested : Nat)
    (past : rowCount ≤ tested) : testBit (setBit bits.words row) tested = false := by
  have different : tested ≠ row := fun same => by
    have := row.isLt
    omega
  rw [testBit_setBit (by decide) (bits.sized ▸ word_lt row), bits.masked tested past]
  simp [different]

/-- Add a row. -/
def set (bits : RowBitset rowCount) (row : Fin rowCount) : RowBitset rowCount where
  words := setBit bits.words row
  sized := (List.length_modify _ _ _).trans bits.sized
  masked := setBit_masked bits row

/-- All sets over the same rows have the same number of words. -/
theorem zipWith_sized (f : BitVec 64 → BitVec 64 → BitVec 64) (bits other : RowBitset rowCount) :
    (List.zipWith f bits.words other.words).length = wordCount rowCount := by
  rw [List.length_zipWith, bits.sized, other.sized, Nat.min_self]

/-- Joining leaves the tail alone. -/
theorem or_masked (bits other : RowBitset rowCount) (row : Nat) (past : rowCount ≤ row) :
    testBit (List.zipWith (· ||| ·) bits.words other.words) row = false := by
  rw [testBit_or (bits.sized.trans other.sized.symm), bits.masked row past, other.masked row past,
    Bool.or_false]

/-- Meeting leaves the tail alone. -/
theorem and_masked (bits other : RowBitset rowCount) (row : Nat) (past : rowCount ≤ row) :
    testBit (List.zipWith (· &&& ·) bits.words other.words) row = false := by
  rw [testBit_and (bits.sized.trans other.sized.symm), bits.masked row past, Bool.false_and]

/-- Rows of either set. -/
def orInPlace (bits other : RowBitset rowCount) : RowBitset rowCount where
  words := List.zipWith (· ||| ·) bits.words other.words
  sized := zipWith_sized _ bits other
  masked := or_masked bits other

/-- Rows of both sets. -/
def andInPlace (bits other : RowBitset rowCount) : RowBitset rowCount where
  words := List.zipWith (· &&& ·) bits.words other.words
  sized := zipWith_sized _ bits other
  masked := and_masked bits other

/-- Every row. -/
def fillTrue (bits : RowBitset rowCount) : RowBitset rowCount :=
  ofWords (bits.words.map fun _ => BitVec.allOnes 64) (List.length_map _ |>.trans bits.sized)

/-- The rows outside the set. -/
def invertInPlace (bits : RowBitset rowCount) : RowBitset rowCount :=
  ofWords (bits.words.map (~~~ ·)) (List.length_map _ |>.trans bits.sized)

/-- The rows in ascending order, read word by word. -/
def collectInto (bits : RowBitset rowCount) (out : List Nat) : List Nat :=
  out ++ positions bits.words

/-- No row is in the empty set. -/
@[simp] theorem test_empty (row : Nat) : (empty rowCount).test row = false :=
  testBit_replicate_zero _ _

/-- Adding a row adds that row. -/
@[simp] theorem test_set (bits : RowBitset rowCount) (row : Fin rowCount) (tested : Nat) :
    (bits.set row).test tested = (bits.test tested || decide (tested = row)) :=
  testBit_setBit (by decide) (bits.sized ▸ word_lt row) tested

/-- Membership in a join. -/
@[simp] theorem test_orInPlace (bits other : RowBitset rowCount) (row : Nat) :
    (bits.orInPlace other).test row = (bits.test row || other.test row) :=
  testBit_or (bits.sized.trans other.sized.symm) row

/-- Membership in a meet. -/
@[simp] theorem test_andInPlace (bits other : RowBitset rowCount) (row : Nat) :
    (bits.andInPlace other).test row = (bits.test row && other.test row) :=
  testBit_and (bits.sized.trans other.sized.symm) row

/-- Every row is in the full set. -/
theorem test_fillTrue (bits : RowBitset rowCount) {row : Nat} (inside : row < rowCount) :
    bits.fillTrue.test row = true := by
  -- The bit is set in its word, and the mask of the tail leaves it.
  have word : row / 64 < bits.words.length := bits.sized ▸ word_lt ⟨row, inside⟩
  unfold fillTrue ofWords test
  rw [testBit_maskTail (by rw [List.length_map, bits.sized])]
  unfold testBit
  rw [List.getElem?_map, List.getElem?_eq_getElem word, Option.map_some, Option.getD_some,
    BitVec.getLsbD_allOnes]
  simp [inside, Nat.mod_lt row (by decide : 0 < 64)]

/-- Inverting exchanges the rows inside and outside. -/
theorem test_invertInPlace (bits : RowBitset rowCount) {row : Nat} (inside : row < rowCount) :
    bits.invertInPlace.test row = !bits.test row := by
  have word : row / 64 < bits.words.length := bits.sized ▸ word_lt ⟨row, inside⟩
  unfold invertInPlace ofWords test
  rw [testBit_maskTail (by rw [List.length_map, bits.sized]), testBit_not (by decide) word]
  simp [inside]

/-- The rows of a set are read back in ascending order, each once. -/
theorem collectInto_eq (bits : RowBitset rowCount) :
    bits.collectInto [] = (List.range rowCount).filter bits.test := by
  refine eq_filter_range (positions_pairwise bits.words) ?_
  intro row
  rw [mem_positions (by decide)]
  constructor
  · intro set
    refine ⟨?_, set⟩
    -- The tail is masked, so a set bit is a row.
    by_contra past
    have unset := bits.masked row (Nat.le_of_not_lt past)
    rw [set] at unset
    contradiction
  · exact fun found => found.2

end Operations

end RowBitset

end Loglib
