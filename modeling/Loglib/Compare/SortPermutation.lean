import Loglib.Compare.CompareRows
import Loglib.Table.Operations

/-! The bulk sort of rows: three paths, and when they place rows as the row comparator would. -/

namespace Loglib

section Directions

/-- `a` is placed before `b`: strictly first in the sort direction, or tied and earlier in
the input. -/
def ComesBefore (ascending : Bool) (compare : Nat → Nat → Int) (a b : Nat) : Prop :=
  (if ascending then compare a b < 0 else 0 < compare a b) ∨ (compare a b = 0 ∧ a < b)

/-- Positions are compared by evaluation. -/
instance (ascending : Bool) (compare : Nat → Nat → Int) (a b : Nat) :
    Decidable (ComesBefore ascending compare a b) :=
  inferInstanceAs (Decidable (_ ∨ _))

/-- Positions sorted by a comparator in a direction, with ties in input order. -/
def sortDirected (n : Nat) (ascending : Bool) (compare : Nat → Nat → Int) : List Nat :=
  sortIndices n fun a b =>
    if compare a b ≠ 0 then (if ascending then compare a b < 0 else 0 < compare a b) else a < b

variable {κ : Type*} [LinearOrder κ] {compare : Nat → Nat → Int} {key : Nat → κ}

/-- Sorting in a direction suits a relation if every pair the direction orders does. -/
theorem sortDirected_pairwise_iff (orders : OrdersBy compare key) (n : Nat) (ascending : Bool)
    {suits : Nat → Nat → Prop} :
    (sortDirected n ascending compare).Pairwise suits ↔
      ∀ a b, a < n → b < n → ComesBefore ascending compare a b → suits a b := by
  cases ascending with
  | true =>
    have same : sortDirected n true compare = sortIndices n (beforeWithTies compare) := rfl
    rw [same, sortIndices_pairwise_iff orders]
    simp only [beforeWithTies_eq_true_iff, ComesBefore, if_true]
  | false =>
    -- Descending is ascending by the swapped comparator, whose keys are ordered the other way.
    have swapped : OrdersBy (fun a b => compare b a) fun a => OrderDual.toDual (key a) :=
      fun a b => orders b a
    have same : sortDirected n false compare =
        sortIndices n (beforeWithTies fun a b => compare b a) := by
      unfold sortDirected
      congr 1
      funext a b
      simp [beforeWithTies, orders.antisymm a b]
    rw [same, sortIndices_pairwise_iff swapped]
    have flipped : ∀ a b, ComesBefore false compare a b ↔
        (compare b a < 0 ∨ compare b a = 0 ∧ a < b) := by
      intro a b
      rw [ComesBefore, orders.antisymm a b]
      simp
    simp only [beforeWithTies_eq_true_iff, flipped]

end Directions

section Paths

variable (vformat : Bytes → LogValue → Bytes) (table : LogTable) (logRows : List Nat)

/-- The row at a position of the list being sorted. -/
def rowAt (position : Nat) : Nat := logRows[position]?.getD 0

/-- Ranks of an enumeration column. A slot without an id gets the rank past the table. -/
def enumRankForRow (columnIndex : Nat) (rank : EnumDictRank) : List Nat :=
  logRows.map fun row =>
    match table.getEnumValueId row columnIndex with
    | some id => rank.rankOf id
    | none => rank.dictSize

/-- The largest `uint8_t`, past every level. -/
def levelSentinel : Nat := 255

/-- Ranks of a level column. Unresolved slots get the sentinel. -/
def levelRankForRow (columnIndex : Nat) : List Nat :=
  match table.levelRanks columnIndex with
  | none => logRows.map fun _ => levelSentinel
  | some ranks =>
    logRows.map fun row =>
      match table.getEnumValueId row columnIndex with
      | none => levelSentinel
      | some id =>
        match ranks[id]? with
        -- A text without a level comes last, like a row without a text.
        | none => levelSentinel
        | some .unknown => levelSentinel
        | some level => level.ordinal

/-- Three-way compare of precomputed ranks. -/
def compareRanks (rankForRow : List Nat) (a b : Nat) : Int :=
  threeWay (rankForRow[a]?.getD 0) (rankForRow[b]?.getD 0)

/-- Three-way compare of the rows at two positions. -/
def comparePositions (columnIndex : Nat) (rank : Option EnumDictRank) (a b : Nat) : Int :=
  compareRows vformat table (rowAt logRows a) (rowAt logRows b) columnIndex rank

/-- The permutation that sorts the rows by a column. -/
def sortPermutationByColumn (columnIndex : Nat) (ascending : Bool) (rank : Option EnumDictRank) :
    List Nat :=
  let n := logRows.length
  if n ≤ 1 then List.range n
  else
    match (table.columns[columnIndex]?).map (fun column : Column => column.type), rank with
    | some .enumeration, some rank =>
      sortDirected n ascending (compareRanks (enumRankForRow table logRows columnIndex rank))
    | some .level, _ =>
      sortDirected n ascending (compareRanks (levelRankForRow table logRows columnIndex))
    | _, _ => sortDirected n ascending (comparePositions vformat table logRows columnIndex rank)

end Paths

section Agreement

variable {vformat : Bytes → LogValue → Bytes} {table : LogTable} {logRows : List Nat}
  {columnIndex : Nat}

/-- The row at a position carries no dictionary id. -/
def LacksId (table : LogTable) (logRows : List Nat) (columnIndex position : Nat) : Prop :=
  table.getEnumValueId (rowAt logRows position) columnIndex = none

/-- The row at a position carries an id minted after the rank table was built. -/
def PastRanks (table : LogTable) (logRows : List Nat) (columnIndex : Nat) (rank : EnumDictRank)
    (position : Nat) : Prop :=
  ∃ id, table.getEnumValueId (rowAt logRows position) columnIndex = some id ∧ rank.dictSize ≤ id

/--
The rank path ties two rows that the comparator tells apart, in the wrong order.

A row without an id and a row past the rank table share the sentinel, so they keep their
input order. The comparator places the row with an id first in ascending order, and last
in descending order. -/
def SentinelTie (table : LogTable) (logRows : List Nat) (columnIndex : Nat) (ascending : Bool)
    (rank : Option EnumDictRank) : Prop :=
  ∃ column ranks, table.columns[columnIndex]? = some column ∧ column.type = .enumeration ∧
    rank = some ranks ∧ ∃ a b, a < b ∧ b < logRows.length ∧
      if ascending then
        LacksId table logRows columnIndex a ∧ PastRanks table logRows columnIndex ranks b
      else PastRanks table logRows columnIndex ranks a ∧ LacksId table logRows columnIndex b

/-- The rows at two positions are ordered by the keys of the row comparator. -/
theorem comparePositions_ordersBy (vformat : Bytes → LogValue → Bytes) (table : LogTable)
    (logRows : List Nat) (columnIndex : Nat) (rank : Option EnumDictRank) :
    ∃ (κ : Type) (_ : LinearOrder κ) (key : Nat → κ),
      OrdersBy (comparePositions vformat table logRows columnIndex rank) key := by
  obtain ⟨κ, order, key, orders, -⟩ := compareRows_ordersWithTail vformat table columnIndex rank
  exact ⟨WithTop κ, inferInstance, fun position => key (rowAt logRows position),
    fun a b => orders (rowAt logRows a) (rowAt logRows b)⟩

/-- Precomputed ranks order positions by their rank. -/
theorem compareRanks_ordersBy (rankForRow : List Nat) :
    OrdersBy (compareRanks rankForRow) fun position => rankForRow[position]?.getD 0 :=
  fun _ _ => rfl

/-- A rank computed for each row is the rank of the row at the position. -/
theorem getD_map_rowAt {position : Nat} (inside : position < logRows.length) (rankOf : Nat → Nat) :
    (logRows.map rankOf)[position]?.getD 0 = rankOf (rowAt logRows position) := by
  have held : logRows[position]? = some (logRows.get ⟨position, inside⟩) :=
    List.getElem?_eq_getElem inside
  simp only [List.getElem?_map, rowAt, held, Option.map_some, Option.getD_some]

section EnumRanks

variable {column : Column} {rank : EnumDictRank} {a b : Nat}

/-- The sort rank of a position of an enumeration column. -/
theorem enumRankForRow_get (inside : a < logRows.length) :
    (enumRankForRow table logRows columnIndex rank)[a]?.getD 0 =
      match table.getEnumValueId (rowAt logRows a) columnIndex with
      | some id => rank.rankOf id
      | none => rank.dictSize :=
  getD_map_rowAt inside fun row =>
    match table.getEnumValueId row columnIndex with
    | some id => rank.rankOf id
    | none => rank.dictSize

/-- On an enumeration column the row comparator is the compare of ranks, shortcut on equal rows. -/
theorem comparePositions_enum (shown : table.columns[columnIndex]? = some column)
    (enumeration : column.type = .enumeration)
    (different : rowAt logRows a ≠ rowAt logRows b) :
    comparePositions vformat table logRows columnIndex (some rank) a b =
      compareEnum vformat table (rowAt logRows a) (rowAt logRows b) columnIndex (some rank) := by
  simp only [comparePositions, compareRows, if_neg different, shown, enumeration]

/-- The rank path and the comparator agree on every pair the sentinel does not tie. -/
theorem compareRanks_enum_eq (shown : table.columns[columnIndex]? = some column)
    (enumeration : column.type = .enumeration) (inA : a < logRows.length) (inB : b < logRows.length)
    (left : ¬(LacksId table logRows columnIndex a ∧ PastRanks table logRows columnIndex rank b))
    (right : ¬(PastRanks table logRows columnIndex rank a ∧ LacksId table logRows columnIndex b)) :
    comparePositions vformat table logRows columnIndex (some rank) a b =
      compareRanks (enumRankForRow table logRows columnIndex rank) a b := by
  rw [compareRanks, enumRankForRow_get inA, enumRankForRow_get inB]
  by_cases same : rowAt logRows a = rowAt logRows b
  · rw [comparePositions, same, compareRows, if_pos rfl, threeWay_self]
  rw [comparePositions_enum shown enumeration same]
  unfold compareEnum
  unfold LacksId PastRanks at left right
  cases idA : table.getEnumValueId (rowAt logRows a) columnIndex with
  | none =>
    cases idB : table.getEnumValueId (rowAt logRows b) columnIndex with
    | none => exact (threeWay_self _).symm
    | some id =>
      -- The other row is ranked, so it comes first.
      have known : id < rank.dictSize := by
        by_contra past
        exact left ⟨idA, id, idB, not_lt.mp past⟩
      have below := EnumDictRank.rankOf_lt known
      simp [threeWay, below, below.not_gt]
  | some id =>
    cases idB : table.getEnumValueId (rowAt logRows b) columnIndex with
    | none =>
      have known : id < rank.dictSize := by
        by_contra past
        exact right ⟨⟨id, idA, not_lt.mp past⟩, idB⟩
      simp [threeWay, EnumDictRank.rankOf_lt known]
    | some other => rfl

/-- A row without an id and a row past the ranks tie by rank, but not by the comparator. -/
theorem comparePositions_of_lacks_past (vformat : Bytes → LogValue → Bytes)
    (shown : table.columns[columnIndex]? = some column) (enumeration : column.type = .enumeration)
    (inA : a < logRows.length) (inB : b < logRows.length)
    (lacks : LacksId table logRows columnIndex a)
    (past : PastRanks table logRows columnIndex rank b) :
    compareRanks (enumRankForRow table logRows columnIndex rank) a b = 0 ∧
      comparePositions vformat table logRows columnIndex (some rank) a b = 1 := by
  obtain ⟨id, idB, past⟩ := past
  -- One row has an id and the other none.
  have different : rowAt logRows a ≠ rowAt logRows b := by
    intro same
    rw [LacksId, same, idB] at lacks
    contradiction
  constructor
  · rw [compareRanks, enumRankForRow_get inA, enumRankForRow_get inB, lacks, idB]
    simp only [EnumDictRank.rankOf_of_le past, threeWay_self]
  · rw [comparePositions_enum shown enumeration different]
    unfold compareEnum
    rw [lacks, idB]

end EnumRanks

/-- The sentinel of the level path stands for the rows without a level. -/
theorem levelRankForRow_get {a : Nat} (inside : a < logRows.length) :
    (levelRankForRow table logRows columnIndex)[a]?.getD 0 =
      match table.getLevelForRow (rowAt logRows a) columnIndex with
      | some level => level.ordinal
      | none => levelSentinel := by
  unfold levelRankForRow LogTable.getLevelForRow LogTable.getDisplayLevelForRow
  -- A row without an id, and an id without a rank, both get the rank of an unknown level.
  cases table.levelRanks columnIndex with
  | none => exact getD_map_rowAt inside fun _ => levelSentinel
  | some ranks =>
    dsimp only
    rw [getD_map_rowAt inside]
    cases table.getEnumValueId (rowAt logRows a) columnIndex with
    | none => rfl
    | some id =>
      dsimp only
      cases ranks[id]? with
      | none => rfl
      | some level => cases level <;> rfl

/-- The level path and the comparator agree on every pair. -/
theorem compareRanks_level_eq {column : Column} {rank : Option EnumDictRank} {a b : Nat}
    (shown : table.columns[columnIndex]? = some column) (isLevel : column.type = .level)
    (inA : a < logRows.length) (inB : b < logRows.length) :
    comparePositions vformat table logRows columnIndex rank a b =
      compareRanks (levelRankForRow table logRows columnIndex) a b := by
  rw [compareRanks, levelRankForRow_get inA, levelRankForRow_get inB]
  by_cases same : rowAt logRows a = rowAt logRows b
  · rw [comparePositions, same, compareRows, if_pos rfl, threeWay_self]
  simp only [comparePositions, compareRows, if_neg same, shown, isLevel, compareLevel]
  -- The sentinel is past every ordinal.
  cases table.getLevelForRow (rowAt logRows a) columnIndex with
  | none =>
    cases table.getLevelForRow (rowAt logRows b) columnIndex with
    | none => exact (threeWay_self _).symm
    | some level =>
      have below : level.ordinal < levelSentinel := level.ordinal_lt.trans (by decide)
      simp [threeWay, below, below.not_gt]
  | some level =>
    cases table.getLevelForRow (rowAt logRows b) columnIndex with
    | none =>
      have below : level.ordinal < levelSentinel := level.ordinal_lt.trans (by decide)
      simp [threeWay, below]
    | some other => rfl

/-- On an enumeration column with ranks, the sort agrees exactly when no sentinel tie misplaces. -/
theorem sortByRank_agrees_iff {column : Column} {rank : EnumDictRank}
    (shown : table.columns[columnIndex]? = some column) (enumeration : column.type = .enumeration)
    (ascending : Bool) :
    (∀ a b, a < logRows.length → b < logRows.length →
      ComesBefore ascending (compareRanks (enumRankForRow table logRows columnIndex rank)) a b →
      ComesBefore ascending (comparePositions vformat table logRows columnIndex (some rank)) a b) ↔
      ¬SentinelTie table logRows columnIndex ascending (some rank) := by
  obtain ⟨κ, _, key, orders⟩ :=
    comparePositions_ordersBy vformat table logRows columnIndex (some rank)
  constructor
  · rintro agrees ⟨column', ranks, shown', -, same, a, b, before, inB, tie⟩
    obtain rfl := Option.some.inj same
    have inA := before.trans inB
    -- The pair keeps its input order by rank, which is the wrong one for the comparator.
    cases ascending with
    | true =>
      obtain ⟨tied, after⟩ :=
        comparePositions_of_lacks_past vformat shown enumeration inA inB tie.1 tie.2
      have placed := agrees a b inA inB (.inr ⟨tied, before⟩)
      simp [ComesBefore, after] at placed
    | false =>
      obtain ⟨tied, after⟩ :=
        comparePositions_of_lacks_past vformat shown enumeration inB inA tie.2 tie.1
      rw [(compareRanks_ordersBy _).antisymm, Int.neg_eq_zero] at tied
      have placed := agrees a b inA inB (.inr ⟨tied, before⟩)
      rw [ComesBefore, orders.antisymm, after] at placed
      simp at placed
  · intro noTie a b inA inB placed
    by_cases left : LacksId table logRows columnIndex a ∧
        PastRanks table logRows columnIndex rank b
    · obtain ⟨tied, after⟩ :=
        comparePositions_of_lacks_past vformat shown enumeration inA inB left.1 left.2
      have before : a < b := by simpa [ComesBefore, tied] using placed
      cases ascending with
      | true => exact absurd ⟨column, rank, shown, enumeration, rfl, a, b, before, inB, left⟩ noTie
      | false => exact .inl (by simp [after])
    · by_cases right : PastRanks table logRows columnIndex rank a ∧
          LacksId table logRows columnIndex b
      · obtain ⟨tied, after⟩ :=
          comparePositions_of_lacks_past vformat shown enumeration inB inA right.2 right.1
        rw [(compareRanks_ordersBy _).antisymm, Int.neg_eq_zero] at tied
        have before : a < b := by simpa [ComesBefore, tied] using placed
        cases ascending with
        | true => exact .inl (by rw [orders.antisymm, after]; decide)
        | false =>
          exact absurd ⟨column, rank, shown, enumeration, rfl, a, b, before, inB, right⟩ noTie
      · unfold ComesBefore at placed ⊢
        rwa [compareRanks_enum_eq shown enumeration inA inB left right]

/-- The bulk sort is a permutation of the positions. -/
theorem sortPermutationByColumn_perm (vformat : Bytes → LogValue → Bytes) (table : LogTable)
    (logRows : List Nat) (columnIndex : Nat) (ascending : Bool) (rank : Option EnumDictRank) :
    (sortPermutationByColumn vformat table logRows columnIndex ascending rank).Perm
      (List.range logRows.length) := by
  unfold sortPermutationByColumn
  dsimp only
  split
  · exact List.Perm.refl _
  · split <;> exact sortIndices_perm _ _

/--
The bulk sort permutes the positions, and orders them as the row comparator does in the sort
direction, with ties in input order, exactly when no sentinel tie misplaces two rows.
-/
theorem sortPermutationByColumn_sorted_iff (vformat : Bytes → LogValue → Bytes) (table : LogTable)
    (logRows : List Nat) (columnIndex : Nat) (ascending : Bool) (rank : Option EnumDictRank) :
    ((sortPermutationByColumn vformat table logRows columnIndex ascending rank).Perm
        (List.range logRows.length) ∧
      (sortPermutationByColumn vformat table logRows columnIndex ascending rank).Pairwise
        (ComesBefore ascending (comparePositions vformat table logRows columnIndex rank))) ↔
      ¬SentinelTie table logRows columnIndex ascending rank := by
  have perm := sortPermutationByColumn_perm vformat table logRows columnIndex ascending rank
  rw [and_iff_right perm]
  unfold sortPermutationByColumn
  dsimp only
  by_cases few : logRows.length ≤ 1
  · -- Fewer than two rows hold no pair at all.
    rw [if_pos few]
    refine iff_of_true ?_ ?_
    · have : logRows.length = 0 ∨ logRows.length = 1 := by omega
      rcases this with none | one <;> simp [*]
    · rintro ⟨-, -, -, -, -, a, b, before, inB, -⟩
      omega
  rw [if_neg few]
  split
  · -- Enumeration with ranks.
    rename_i ranks typed
    obtain ⟨column, shown, enumeration⟩ := Option.map_eq_some_iff.mp typed
    rw [sortDirected_pairwise_iff (compareRanks_ordersBy _)]
    exact sortByRank_agrees_iff shown enumeration ascending
  · -- Level columns never misplace.
    rename_i typed
    obtain ⟨column, shown, isLevel⟩ := Option.map_eq_some_iff.mp typed
    rw [sortDirected_pairwise_iff (compareRanks_ordersBy _)]
    refine iff_of_true ?_ ?_
    · intro a b inA inB placed
      unfold ComesBefore at placed ⊢
      rwa [compareRanks_level_eq shown isLevel inA inB]
    · rintro ⟨column', -, shown', enumeration, -⟩
      obtain rfl := Option.some.inj (shown.symm.trans shown')
      rw [isLevel] at enumeration
      contradiction
  · -- Every other path sorts by the comparator itself.
    rename_i rank _ _ notLevel notRanked
    obtain ⟨κ, _, key, orders⟩ :=
      comparePositions_ordersBy vformat table logRows columnIndex rank
    rw [sortDirected_pairwise_iff orders]
    refine iff_of_true (fun _ _ _ _ placed => placed) ?_
    rintro ⟨column, ranks, shown, enumeration, rfl, -⟩
    exact notRanked ranks (by rw [shown, Option.map_some, enumeration]) rfl

section StaleRanks

/-- An enumeration column that shows the key `k`. -/
def enumConfiguration : LogConfiguration :=
  ⟨[{ header := bytes "k", keys := [bytes "k"], printFormat := defaultPrintFormat,
      type := .enumeration, parseFormats := [], levelMapping := [], autoDetect := false }],
    ⟨-1, false⟩⟩

/-- Two rows of a file: the first without fields, the second with `k = "x"`. -/
def staleRankBatch : StreamedBatch :=
  ⟨[⟨.empty, 0, 0⟩, .ofField 0 1 0 (.mmapSlice 2 1)], [2, 4], [bytes "k"], []⟩

/-- Ranks built before the batch know no id, so ascending order leaves the empty row first. -/
theorem staleRank_misplaces :
    ¬∀ (configuration : LogConfiguration) (before after : List TableOp) (early late : LogTable)
        (dictionary : EnumDictionary) (logRows : List Nat) (columnIndex : Nat) (ascending : Bool),
      LogTable.run (fun _ _ => none) (.initial configuration) before = some early →
      LogTable.run (fun _ _ => none) early after = some late →
      (early.resolveEnumColumn columnIndex).2 = some dictionary →
      (sortPermutationByColumn (fun _ _ => []) late logRows columnIndex ascending
          (some (.ofDictionary dictionary))).Pairwise
        (ComesBefore ascending (comparePositions (fun _ _ => []) late logRows columnIndex
          (some (.ofDictionary dictionary)))) := by
  intro claim
  have sorted := claim enumConfiguration
    [.beginStreaming (some (.file (.ofData (bytes "x\nx\n"))))] [.appendBatch staleRankBatch]
    _ _ _ [0, 1] 0 true rfl rfl rfl
  exact absurd sorted (by decide)

end StaleRanks

end Agreement

end Loglib
