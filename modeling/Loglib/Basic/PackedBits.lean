import Mathlib

/-! Sets of positions packed into machine words: single bits, whole words, and reading them back. -/

namespace Loglib

namespace PackedBits

section Words

variable {w : Nat}

/-- A word that is not zero, less one, is the number less one. -/
theorem toNat_sub_one {word : BitVec w} (nonzero : word ≠ 0) :
    0 < word.toNat ∧ (word - 1).toNat = word.toNat - 1 := by
  have positive : 0 < word.toNat := by
    rcases Nat.eq_zero_or_pos word.toNat with zero | positive
    · exact absurd (BitVec.eq_of_toNat_eq zero) nonzero
    · exact positive
  -- Only the empty word has width zero, and it is zero.
  have width : w ≠ 0 := by
    rintro rfl
    exact nonzero (BitVec.eq_of_toNat_eq (by omega))
  have one : (1 : BitVec w).toNat = 1 := by
    simp [Nat.mod_eq_of_lt (Nat.one_lt_two_pow width)]
  refine ⟨positive, ?_⟩
  rw [BitVec.toNat_sub_of_le, one]
  rw [BitVec.le_def, one]
  exact positive

/-- Clearing a bit makes a word smaller. -/
theorem clear_lt {word : BitVec w} (nonzero : word ≠ 0) :
    (word &&& (word - 1)).toNat < word.toNat := by
  obtain ⟨positive, below⟩ := toNat_sub_one nonzero
  rw [BitVec.toNat_and, below]
  have : word.toNat &&& (word.toNat - 1) ≤ word.toNat - 1 := Nat.and_le_right
  omega

/-- The positions of the set bits of a word, lowest first, each cleared once it is read. -/
def setBits (word : BitVec w) : List Nat :=
  if word = 0 then []
  else word.ctz.toNat :: setBits (word &&& (word - 1))
termination_by word.toNat
decreasing_by exact clear_lt ‹_›

/-- Subtracting one clears the lowest set bit of a number and sets those below it. -/
theorem testBit_and_sub_one {n k : Nat} (lowest : n.testBit k = true)
    (below : ∀ i, i < k → n.testBit i = false) (i : Nat) :
    (n &&& (n - 1)).testBit i = (n.testBit i && decide (i ≠ k)) := by
  -- Above `k` zeros the number continues with an odd quotient.
  obtain ⟨m, shape⟩ : ∃ m, n = 2 ^ k * (2 * m + 1) := by
    have odd : (n / 2 ^ k) % 2 = 1 := by
      have := Nat.testBit_eq_decide_div_mod_eq (x := n) (i := k)
      simpa [lowest] using this.symm
    have even : n % 2 ^ k = 0 := by
      apply Nat.eq_of_testBit_eq
      intro i
      rw [Nat.testBit_mod_two_pow, Nat.zero_testBit]
      by_cases inside : i < k
      · simp [below i inside]
      · simp [inside]
    refine ⟨n / 2 ^ k / 2, ?_⟩
    have := Nat.div_add_mod n (2 ^ k)
    have half : 2 * (n / 2 ^ k / 2) + 1 = n / 2 ^ k := by omega
    rw [half]
    omega
  have power : 0 < 2 ^ k := Nat.two_pow_pos k
  have whole : n = 2 ^ k * (2 * m + 1) + 0 := by omega
  have less : n - 1 = 2 ^ k * (2 * m) + (2 ^ k - 1) := by
    rw [shape, Nat.mul_add, Nat.mul_one]
    omega
  rw [Nat.testBit_and, less]
  conv_lhs => rw [whole]
  conv_rhs => rw [whole]
  rw [Nat.testBit_two_pow_mul_add _ power, Nat.testBit_two_pow_mul_add _ (by omega)]
  by_cases inside : i < k
  · simp [inside]
  · simp only [inside, if_false]
    rcases Nat.eq_or_lt_of_le (Nat.le_of_not_lt inside) with same | above
    · -- The lowest bit itself is the one that goes.
      subst same
      simp
    · obtain ⟨d, rfl⟩ : ∃ d, i = k + 1 + d := ⟨i - (k + 1), by omega⟩
      have offset : k + 1 + d - k = d + 1 := by omega
      have apart : k + 1 + d ≠ k := by omega
      rw [offset, Nat.testBit_succ, Nat.testBit_succ]
      have halves : (2 * m + 1) / 2 = m ∧ 2 * m / 2 = m := by omega
      simp [halves, apart]

/-- Clearing removes exactly the lowest set bit. -/
theorem getLsbD_clear {word : BitVec w} (nonzero : word ≠ 0) (i : Nat) :
    (word &&& (word - 1)).getLsbD i = (word.getLsbD i && decide (i ≠ word.ctz.toNat)) := by
  have lowest := BitVec.getLsbD_true_ctz_of_ne_zero nonzero
  have below : ∀ i, i < word.ctz.toNat → word.toNat.testBit i = false :=
    fun i before => BitVec.getLsbD_false_of_lt_ctz before
  rw [BitVec.getLsbD, BitVec.toNat_and, (toNat_sub_one nonzero).2]
  exact testBit_and_sub_one lowest below i

/-- Exactly the set bits are read. -/
theorem mem_setBits (word : BitVec w) (i : Nat) : i ∈ setBits word ↔ word.getLsbD i = true := by
  fun_induction setBits word with
  | case1 => simp
  | case2 word nonzero ih =>
    rw [List.mem_cons, ih, getLsbD_clear nonzero]
    by_cases lowest : i = word.ctz.toNat
    · -- The lowest bit is the head of the list.
      subst lowest
      simp [BitVec.getLsbD_true_ctz_of_ne_zero nonzero]
    · simp [lowest]

/-- The set bits are read in ascending order. -/
theorem setBits_pairwise (word : BitVec w) : (setBits word).Pairwise (· < ·) := by
  fun_induction setBits word with
  | case1 => exact List.Pairwise.nil
  | case2 word nonzero ih =>
    refine List.pairwise_cons.mpr ⟨?_, ih⟩
    intro i later
    rw [mem_setBits, getLsbD_clear nonzero, Bool.and_eq_true, decide_eq_true_eq] at later
    -- No set bit lies below the lowest one, and the lowest one itself was cleared.
    by_contra notAfter
    have before : i < word.ctz.toNat := by
      have := later.2
      omega
    have unset := BitVec.getLsbD_false_of_lt_ctz before
    rw [later.1] at unset
    contradiction

/-- The mask `2^tail - 1` keeps exactly the bits below the tail. -/
theorem getLsbD_mask {tail : Nat} (inside : tail < w) (i : Nat) :
    ((1 : BitVec w) <<< tail - 1).getLsbD i = decide (i < tail) := by
  -- The shifted bit is a power of two, as it is inside the word.
  have power : ((1 : BitVec w) <<< tail).toNat = 2 ^ tail := by
    have bound : 2 ^ tail < 2 ^ w := Nat.pow_lt_pow_right (by decide) inside
    have one : (1 : BitVec w).toNat = 1 := by
      simp [Nat.mod_eq_of_lt (Nat.one_lt_two_pow (by omega : w ≠ 0))]
    rw [BitVec.toNat_shiftLeft, one, Nat.shiftLeft_eq, Nat.one_mul, Nat.mod_eq_of_lt bound]
  have nonzero : (1 : BitVec w) <<< tail ≠ 0 := by
    intro zero
    rw [zero] at power
    have := Nat.two_pow_pos tail
    simp at power
    omega
  rw [BitVec.getLsbD, (toNat_sub_one nonzero).2, power, Nat.testBit_two_pow_sub_one]

end Words

section Sequences

variable {w : Nat}

/-- The bit of a position. Past the words every bit is unset. -/
def testBit (words : List (BitVec w)) (position : Nat) : Bool :=
  (words[position / w]?.getD 0).getLsbD (position % w)

/-- Set the bit of a position. -/
def setBit (words : List (BitVec w)) (position : Nat) : List (BitVec w) :=
  words.modify (position / w) fun word => word ||| (1 : BitVec w) <<< (position % w)

/-- The positions of all set bits, word by word. -/
def positions (words : List (BitVec w)) : List Nat :=
  words.zipIdx.flatMap fun entry => (setBits entry.1).map (entry.2 * w + ·)

variable {words : List (BitVec w)}

/-- A set bit lies inside the words. -/
theorem exists_word_of_testBit {position : Nat} (set : testBit words position = true) :
    ∃ word, words[position / w]? = some word ∧ word.getLsbD (position % w) = true := by
  unfold testBit at set
  cases held : words[position / w]? with
  | none => simp [held] at set
  | some word => exact ⟨word, rfl, by simpa [held] using set⟩

/-- Setting a position sets its bit and no other. -/
theorem testBit_setBit (width : 0 < w) {position : Nat} (inside : position / w < words.length)
    (tested : Nat) :
    testBit (setBit words position) tested =
      (testBit words tested || decide (tested = position)) := by
  unfold testBit setBit
  by_cases sameWord : position / w = tested / w
  · rw [← sameWord, List.getElem?_modify_eq]
    have held : words[position / w]? = some (words.get ⟨position / w, inside⟩) :=
      List.getElem?_eq_getElem inside
    simp only [held, Option.map_eq_map, Option.map_some, Option.getD_some, BitVec.getLsbD_or]
    congr 1
    -- Inside one word, the same offset is the same position.
    have offset : position % w < w := Nat.mod_lt _ width
    have single : ((1 : BitVec w) <<< (position % w)).getLsbD (tested % w) =
        decide (position % w = tested % w) := by
      have twoPow : (1 : BitVec w) <<< (position % w) = BitVec.twoPow w (position % w) := rfl
      rw [twoPow, BitVec.getLsbD_twoPow]
      simp [offset]
    rw [single]
    have same : position % w = tested % w ↔ tested = position := by
      constructor
      · intro offsets
        have left := Nat.div_add_mod position w
        have right := Nat.div_add_mod tested w
        rw [sameWord, offsets] at left
        exact right.symm.trans left
      · intro same
        rw [same]
    simp only [same]
  · -- Another word is left alone.
    have different : tested ≠ position := fun same => sameWord (by rw [same])
    rw [List.getElem?_modify_ne _ _ sameWord]
    simp [different]

/-- Words without set bits hold no position. -/
theorem testBit_replicate_zero (count position : Nat) :
    testBit (List.replicate count (0 : BitVec w)) position = false := by
  unfold testBit
  rw [List.getElem?_replicate]
  split <;> simp

/-- Joining words of one length joins their bits. -/
theorem testBit_or {other : List (BitVec w)} (sized : words.length = other.length)
    (position : Nat) :
    testBit (List.zipWith (· ||| ·) words other) position =
      (testBit words position || testBit other position) := by
  unfold testBit
  rw [List.getElem?_zipWith]
  -- Past the last word both sides are false.
  by_cases inside : position / w < words.length
  · rw [List.getElem?_eq_getElem inside, List.getElem?_eq_getElem (sized ▸ inside)]
    exact BitVec.getLsbD_or
  · rw [List.getElem?_eq_none (by omega), List.getElem?_eq_none (by omega)]
    simp

/-- Meeting words of one length meets their bits. -/
theorem testBit_and {other : List (BitVec w)} (sized : words.length = other.length)
    (position : Nat) :
    testBit (List.zipWith (· &&& ·) words other) position =
      (testBit words position && testBit other position) := by
  unfold testBit
  rw [List.getElem?_zipWith]
  -- Past the last word both sides are false.
  by_cases inside : position / w < words.length
  · rw [List.getElem?_eq_getElem inside, List.getElem?_eq_getElem (sized ▸ inside)]
    exact BitVec.getLsbD_and
  · rw [List.getElem?_eq_none (by omega), List.getElem?_eq_none (by omega)]
    simp

/-- Inverting words inverts every bit inside them. -/
theorem testBit_not (width : 0 < w) {position : Nat} (inside : position / w < words.length) :
    testBit (words.map (~~~ ·)) position = !testBit words position := by
  unfold testBit
  rw [List.getElem?_map, List.getElem?_eq_getElem inside]
  simp [Nat.mod_lt position width]

/-- Exactly the positions of set bits are read back. -/
theorem mem_positions (width : 0 < w) (position : Nat) :
    position ∈ positions words ↔ testBit words position = true := by
  constructor
  · intro listed
    obtain ⟨⟨word, index⟩, entry, read⟩ := List.mem_flatMap.mp listed
    obtain ⟨i, bit, rfl⟩ := List.mem_map.mp read
    rw [mem_setBits] at bit
    have inside : i < w := BitVec.lt_of_getLsbD bit
    have held : words[index]? = some word := List.mk_mem_zipIdx_iff_getElem?.mp entry
    -- The offset inside the word gives word and bit back.
    have quotient : (index * w + i) / w = index := by
      rw [Nat.mul_comm, Nat.mul_add_div width, Nat.div_eq_of_lt inside, Nat.add_zero]
    have remainder : (index * w + i) % w = i := by
      rw [Nat.mul_comm, Nat.mul_add_mod, Nat.mod_eq_of_lt inside]
    show testBit words (index * w + i) = true
    unfold testBit
    rw [quotient, remainder, held]
    exact bit
  · intro set
    obtain ⟨word, held, bit⟩ := exists_word_of_testBit set
    refine List.mem_flatMap.mpr ⟨(word, position / w), List.mk_mem_zipIdx_iff_getElem?.mpr held, ?_⟩
    refine List.mem_map.mpr ⟨position % w, (mem_setBits word _).mpr bit, ?_⟩
    rw [Nat.mul_comm]
    exact Nat.div_add_mod position w

/-- The positions are read back in ascending order. -/
theorem positions_pairwise (words : List (BitVec w)) : (positions words).Pairwise (· < ·) := by
  unfold positions
  rw [List.pairwise_flatMap]
  constructor
  · -- Inside a word the bits ascend.
    intro entry _
    rw [List.pairwise_map]
    exact (setBits_pairwise entry.1).imp fun before => Nat.add_lt_add_left before _
  · -- Every bit of a later word lies past every bit of an earlier one.
    have ascending : words.zipIdx.Pairwise fun first second => first.2 < second.2 := by
      have numbers : (words.zipIdx.map Prod.snd).Pairwise (· < ·) := by
        rw [List.zipIdx_map_snd]
        exact List.pairwise_lt_range'
      exact List.pairwise_map.mp numbers
    refine ascending.imp ?_
    intro first second before x readX y readY
    obtain ⟨i, bit, rfl⟩ := List.mem_map.mp readX
    obtain ⟨j, -, rfl⟩ := List.mem_map.mp readY
    have inside : i < w := BitVec.lt_of_getLsbD ((mem_setBits _ _).mp bit)
    have step : (first.2 + 1) * w ≤ second.2 * w := Nat.mul_le_mul_right w before
    rw [Nat.add_mul, Nat.one_mul] at step
    show first.2 * w + i < second.2 * w + j
    omega

end Sequences

end PackedBits

end Loglib
