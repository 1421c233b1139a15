import Mathlib
import Loglib.Order.ThreeWay

/-! Sorting the positions of a sequence by a comparator, and inverting the order that results. -/

namespace Loglib

/-- The positions `0..n-1` in the order of a strict comparison. -/
def sortIndices (n : Nat) (before : Nat → Nat → Bool) : List Nat :=
  (List.range n).insertionSort fun a b => !before b a

/-- Strictly before by the comparator, with ties in position order. -/
def beforeWithTies (compare : Nat → Nat → Int) (a b : Nat) : Bool :=
  if compare a b ≠ 0 then compare a b < 0 else a < b

/-- Before by a comparator with ties: strictly less, or equal and earlier. -/
theorem beforeWithTies_eq_true_iff {compare : Nat → Nat → Int} {a b : Nat} :
    beforeWithTies compare a b = true ↔ compare a b < 0 ∨ (compare a b = 0 ∧ a < b) := by
  unfold beforeWithTies
  -- A comparison that is not zero decides, and the position otherwise.
  split
  · rename_i different
    simp [different]
  · rename_i tie
    rw [not_not] at tie
    simp [tie]

/-- The sorted positions are the positions. -/
theorem sortIndices_perm (n : Nat) (before : Nat → Nat → Bool) :
    (sortIndices n before).Perm (List.range n) :=
  List.perm_insertionSort _ _

/-- Exactly the positions below the count are sorted. -/
@[simp] theorem mem_sortIndices {n : Nat} {before : Nat → Nat → Bool} {a : Nat} :
    a ∈ sortIndices n before ↔ a < n := by
  rw [(sortIndices_perm n before).mem_iff, List.mem_range]

/-- Sorting by a strict comparison of keys puts the keys in order. -/
theorem sortIndices_pairwise_le {κ : Type*} [LinearOrder κ] {before : Nat → Nat → Bool}
    {key : Nat → κ} (byKey : ∀ a b, before a b = true ↔ key a < key b) (n : Nat) :
    (sortIndices n before).Pairwise fun a b => key a ≤ key b := by
  -- "Not after" is "less or equal" of the keys, which is total and transitive.
  have notAfter : ∀ a b, (!before b a) = true ↔ key a ≤ key b := by
    intro a b
    rw [Bool.not_eq_true', ← Bool.not_eq_true, byKey, not_lt]
  have : Std.Total fun a b => (!before b a) = true := ⟨fun a b => by
    simp only [notAfter]
    exact le_total (key a) (key b)⟩
  have : IsTrans Nat fun a b => (!before b a) = true := ⟨fun a b c first second => by
    rw [notAfter] at first second ⊢
    exact first.trans second⟩
  have sorted := List.pairwise_insertionSort (fun a b => (!before b a) = true) (List.range n)
  exact sorted.imp fun {a b} ordered => (notAfter a b).mp ordered

/-- Positions with different keys end up in strict order of their keys. -/
theorem sortIndices_pairwise_lt {κ : Type*} [LinearOrder κ] {before : Nat → Nat → Bool}
    {key : Nat → κ} (byKey : ∀ a b, before a b = true ↔ key a < key b) {n : Nat}
    (distinct : ∀ a b, a < n → b < n → key a = key b → a = b) :
    (sortIndices n before).Pairwise fun a b => key a < key b := by
  have once : (sortIndices n before).Nodup :=
    (sortIndices_perm n _).nodup_iff.mpr List.nodup_range
  refine ((sortIndices_pairwise_le byKey n).and once).imp_of_mem ?_
  intro a b inA inB ⟨weak, different⟩
  -- Equal keys would be one position, which the order lists only once.
  refine lt_of_le_of_ne weak fun same => different ?_
  exact distinct a b (mem_sortIndices.mp inA) (mem_sortIndices.mp inB) same

/-- An ascending list of positions is the range cut to its members. -/
theorem eq_filter_range {positions : List Nat} (ascending : positions.Pairwise (· < ·)) {n : Nat}
    {accepts : Nat → Bool} (members : ∀ a, a ∈ positions ↔ a < n ∧ accepts a = true) :
    positions = (List.range n).filter accepts := by
  have once : positions.Nodup := ascending.imp fun before => Nat.ne_of_lt before
  have cut : ((List.range n).filter accepts).Pairwise (· < ·) :=
    List.pairwise_lt_range.sublist List.filter_sublist
  have perm : positions.Perm ((List.range n).filter accepts) := by
    refine (List.perm_ext_iff_of_nodup once (List.nodup_range.filter _)).mpr fun a => ?_
    rw [members, List.mem_filter, List.mem_range]
  -- Two ascending lists with the same members are the same list.
  exact perm.eq_of_pairwise (fun a b _ _ first second => absurd first second.not_gt) ascending cut

section Ties

variable {κ : Type*} [LinearOrder κ] {compare : Nat → Nat → Int} {key : Nat → κ}

/-- A keyed comparator with ties compares keys first and positions second. -/
theorem beforeWithTies_iff (orders : OrdersBy compare key) (a b : Nat) :
    beforeWithTies compare a b = true ↔ toLex (key a, a) < toLex (key b, b) := by
  rw [Prod.Lex.toLex_lt_toLex]
  unfold beforeWithTies
  by_cases tie : compare a b = 0
  · -- Equal keys leave the decision to the positions.
    have same : key a = key b := threeWay_eq_zero_iff.mp (orders a b ▸ tie)
    simp [tie, same]
  · -- Different keys decide alone.
    have different : key a ≠ key b := fun same => tie (by rw [orders, same, threeWay_self])
    simp [different, orders a b]

/-- The keyed order with ties is strict: no two positions stand before each other. -/
theorem beforeWithTies_asymm (orders : OrdersBy compare key) {a b : Nat}
    (first : beforeWithTies compare a b = true) : beforeWithTies compare b a = false := by
  rw [← Bool.not_eq_true]
  rw [beforeWithTies_iff orders] at first ⊢
  exact first.not_gt

/-- Sorting by a keyed comparator with ties puts each position strictly before the later ones. -/
theorem sortIndices_pairwise (orders : OrdersBy compare key) (n : Nat) :
    (sortIndices n (beforeWithTies compare)).Pairwise
      fun a b => beforeWithTies compare a b = true := by
  -- The positions are part of the compared key, so no two keys are the same.
  have sorted := sortIndices_pairwise_lt (n := n) (beforeWithTies_iff orders)
    fun a b _ _ same => (Prod.mk.inj (toLex_inj.mp same)).2
  exact sorted.imp fun {a b} => (beforeWithTies_iff orders a b).mpr

/-- An order sorted by one comparator suits a relation if every pair it orders does. -/
theorem sortIndices_pairwise_iff (orders : OrdersBy compare key) {suits : Nat → Nat → Prop}
    (n : Nat) :
    (sortIndices n (beforeWithTies compare)).Pairwise suits ↔
      ∀ a b, a < n → b < n → beforeWithTies compare a b = true → suits a b := by
  have sorted := sortIndices_pairwise orders n
  constructor
  · intro suited a b inA inB before
    -- In the sorted list a pair stands the way the comparator says, and never the other.
    have agrees : (sortIndices n (beforeWithTies compare)).Pairwise fun a b =>
        (beforeWithTies compare a b = true → suits a b) ∧
          (beforeWithTies compare b a = true → suits b a) := by
      refine (sorted.and suited).imp ?_
      intro a b ⟨before, suitable⟩
      refine ⟨fun _ => suitable, fun after => ?_⟩
      have never := beforeWithTies_asymm orders before
      rw [after] at never
      contradiction
    have symmetric : Std.Symm fun a b =>
        (beforeWithTies compare a b = true → suits a b) ∧
          (beforeWithTies compare b a = true → suits b a) :=
      ⟨fun _ _ both => ⟨both.2, both.1⟩⟩
    have different : a ≠ b := by
      rintro rfl
      have never := beforeWithTies_asymm orders before
      rw [before] at never
      contradiction
    exact (agrees.forall (mem_sortIndices.mpr inA) (mem_sortIndices.mpr inB) different).1 before
  · intro agrees
    refine sorted.imp_of_mem ?_
    intro a b inA inB before
    exact agrees a b (mem_sortIndices.mp inA) (mem_sortIndices.mp inB) before

end Ties

section Invert

/-- The rank of each position: the position in `order[k]` gets rank `k`. -/
def invertOrder (order : List Nat) : List Nat :=
  order.zipIdx.foldl (fun ranks entry => ranks.set entry.1 entry.2) (List.replicate order.length 0)

section Writes

variable {α : Type*}

/-- Writing entries keeps the length of the table. -/
theorem length_foldl_set (entries : List (Nat × α)) (ranks : List α) :
    (entries.foldl (fun ranks entry => ranks.set entry.1 entry.2) ranks).length = ranks.length := by
  -- Each write replaces one entry.
  induction entries generalizing ranks with
  | nil => rfl
  | cons entry rest ih => rw [List.foldl_cons, ih, List.length_set]

/-- A position that no entry names keeps its rank. -/
theorem foldl_set_of_notMem {entries : List (Nat × α)} {id : Nat}
    (absent : id ∉ entries.map (·.1)) (ranks : List α) :
    (entries.foldl (fun ranks entry => ranks.set entry.1 entry.2) ranks)[id]? = ranks[id]? := by
  induction entries generalizing ranks with
  | nil => rfl
  | cons entry rest ih =>
    rw [List.map_cons, List.mem_cons, not_or] at absent
    rw [List.foldl_cons, ih absent.2, List.getElem?_set_ne (Ne.symm absent.1)]

/-- With distinct positions, every entry's rank survives the later writes. -/
theorem foldl_set_of_mem {entries : List (Nat × α)} (distinct : (entries.map (·.1)).Nodup)
    {id : Nat} {rank : α} (listed : (id, rank) ∈ entries) (ranks : List α)
    (inside : id < ranks.length) :
    (entries.foldl (fun ranks entry => ranks.set entry.1 entry.2) ranks)[id]? = some rank := by
  induction entries generalizing ranks with
  | nil => exact absurd listed List.not_mem_nil
  | cons entry rest ih =>
    rw [List.map_cons, List.nodup_cons] at distinct
    rw [List.foldl_cons]
    rcases List.mem_cons.mp listed with rfl | later
    · -- The entry itself was just written, and no later entry names its position.
      rw [foldl_set_of_notMem distinct.1, List.getElem?_set_self inside]
    · exact ih distinct.2 later _ (by rwa [List.length_set])

end Writes

/-- There is one rank for each position. -/
@[simp] theorem length_invertOrder (order : List Nat) :
    (invertOrder order).length = order.length := by
  rw [invertOrder, length_foldl_set, List.length_replicate]

/-- In an order of the positions, the `k`-th position has rank `k`. -/
theorem invertOrder_get {order : List Nat} {n : Nat} (perm : order.Perm (List.range n))
    {rank id : Nat} (placed : order[rank]? = some id) : (invertOrder order)[id]? = some rank := by
  have distinct : (order.zipIdx.map (·.1)).Nodup := by
    simpa using perm.nodup_iff.mpr List.nodup_range
  have listed : (id, rank) ∈ order.zipIdx := List.mk_mem_zipIdx_iff_getElem?.mpr placed
  refine foldl_set_of_mem distinct listed _ ?_
  -- Every position of the order lies below its length.
  have below : id < n := List.mem_range.mp (perm.mem_iff.mp (List.mem_of_getElem? placed))
  rwa [List.length_replicate, perm.length_eq, List.length_range]

/-- Every position of an order has a rank, which is where the order places it. -/
theorem exists_rank {order : List Nat} {n : Nat} (perm : order.Perm (List.range n)) {id : Nat}
    (below : id < n) : ∃ rank, order[rank]? = some id ∧ (invertOrder order)[id]? = some rank := by
  have placed : id ∈ order := perm.mem_iff.mpr (List.mem_range.mpr below)
  obtain ⟨rank, placed⟩ := List.mem_iff_getElem?.mp placed
  exact ⟨rank, placed, invertOrder_get perm placed⟩

end Invert

end Loglib
