import Mathlib

/-! Three-way comparators that order their arguments by a key in a linear order. -/

namespace Loglib

/-- Three-way compare on a totally ordered type: `-1`, `0` or `1`. -/
def threeWay {α : Type*} [LT α] [DecidableLT α] (lhs rhs : α) : Int :=
  if lhs < rhs then -1 else if rhs < lhs then 1 else 0

section Keys

variable {κ : Type*} [LinearOrder κ]

/-- A value compares equal to itself. -/
@[simp] theorem threeWay_self (a : κ) : threeWay a a = 0 := by
  simp [threeWay]

/-- Swapping the arguments flips the sign. -/
theorem threeWay_swap (a b : κ) : threeWay a b = -threeWay b a := by
  -- Totality leaves the three cases of a linear order.
  rcases lt_trichotomy a b with less | same | greater
  · simp [threeWay, less, less.not_gt]
  · simp [threeWay, same]
  · simp [threeWay, greater, greater.not_gt]

/-- The result is negative exactly when the left argument is smaller. -/
@[simp] theorem threeWay_neg_iff {a b : κ} : threeWay a b < 0 ↔ a < b := by
  unfold threeWay
  by_cases less : a < b
  · simp [less]
  · by_cases greater : b < a <;> simp [less, greater]

/-- The result is positive exactly when the right argument is smaller. -/
@[simp] theorem threeWay_pos_iff {a b : κ} : 0 < threeWay a b ↔ b < a := by
  rw [threeWay_swap, Int.neg_pos, threeWay_neg_iff]

/-- The result is zero exactly on equal arguments. -/
@[simp] theorem threeWay_eq_zero_iff {a b : κ} : threeWay a b = 0 ↔ a = b := by
  constructor
  · -- Neither less nor greater.
    intro zero
    have notLess : ¬a < b := fun less => by
      have := threeWay_neg_iff.mpr less
      omega
    have notGreater : ¬b < a := fun greater => by
      have := threeWay_pos_iff.mpr greater
      omega
    exact le_antisymm (not_lt.mp notGreater) (not_lt.mp notLess)
  · rintro rfl
    exact threeWay_self a

/-- The result is not positive exactly when the arguments are in order. -/
@[simp] theorem threeWay_nonpos_iff {a b : κ} : threeWay a b ≤ 0 ↔ a ≤ b := by
  rw [← not_lt, ← not_lt, not_iff_not, threeWay_pos_iff]

/-- A strictly monotone renaming of the keys changes no result. -/
theorem threeWay_map {ι : Type*} [LinearOrder ι] {f : κ → ι} (monotone : StrictMono f) (a b : κ) :
    threeWay (f a) (f b) = threeWay a b := by
  simp [threeWay, monotone.lt_iff_lt]

end Keys

section Comparators

variable {α κ : Type*} [LinearOrder κ]

/-- The comparator orders its arguments by the key. -/
def OrdersBy (compare : α → α → Int) (key : α → κ) : Prop :=
  ∀ a b, compare a b = threeWay (key a) (key b)

variable {compare : α → α → Int} {key : α → κ}

/-- A keyed comparator is antisymmetric. -/
theorem OrdersBy.antisymm (orders : OrdersBy compare key) (a b : α) :
    compare a b = -compare b a := by
  rw [orders, orders, threeWay_swap]

/-- "Less or equal" of a keyed comparator is transitive. -/
theorem OrdersBy.trans_le (orders : OrdersBy compare key) {a b c : α}
    (first : compare a b ≤ 0) (second : compare b c ≤ 0) : compare a c ≤ 0 := by
  rw [orders, threeWay_nonpos_iff] at first second ⊢
  exact first.trans second

/-- "Strictly less" of a keyed comparator is a strict weak order. -/
theorem OrdersBy.strictWeakOrder (orders : OrdersBy compare key) :
    IsStrictWeakOrder α fun a b => compare a b < 0 where
  irrefl a := by simp [orders a a]
  trans a b c first second := by
    rw [orders, threeWay_neg_iff] at first second ⊢
    exact first.trans second
  incomp_trans a b c first second := by
    -- Incomparable keys in a linear order are equal keys.
    simp only [orders _ _, threeWay_neg_iff, not_lt] at first second ⊢
    exact ⟨second.1.trans first.1, first.2.trans second.2⟩

/-- A comparator by some key, whose top is shared by everything that is not representable. -/
def OrdersWithTail (compare : α → α → Int) (representable : α → Prop) : Prop :=
  ∃ (ι : Type) (_ : LinearOrder ι) (key : α → WithTop ι),
    OrdersBy compare key ∧ ∀ a, key a = ⊤ ↔ ¬representable a

variable {representable : α → Prop}

/-- Any two members of the tail compare equal. -/
theorem OrdersWithTail.eq_of_tail (orders : OrdersWithTail compare representable) {a b : α}
    (left : ¬representable a) (right : ¬representable b) : compare a b = 0 := by
  obtain ⟨ι, _, key, byKey, tail⟩ := orders
  -- Both keys are the top.
  rw [byKey, threeWay_eq_zero_iff, (tail a).mpr left, (tail b).mpr right]

/-- A member of the tail compares after everything representable. -/
theorem OrdersWithTail.pos_of_tail (orders : OrdersWithTail compare representable) {a b : α}
    (left : ¬representable a) (right : representable b) : 0 < compare a b := by
  obtain ⟨ι, _, key, byKey, tail⟩ := orders
  have inside : key b ≠ ⊤ := fun top => (tail b).mp top right
  rw [byKey, threeWay_pos_iff, (tail a).mpr left]
  exact inside.lt_top

/-- Compare what is there, and put what is missing into one bucket at the end. -/
def tailCompare {β : Type*} (cmp : β → β → Int) : Option β → Option β → Int
  | some a, some b => cmp a b
  | some _, none => -1
  | none, some _ => 1
  | none, none => 0

/-- The key of an extract, with the top for a missing one. -/
def tailKey {β ι : Type*} (key : β → ι) : Option β → WithTop ι
  | some value => key value
  | none => ⊤

/-- The compare with a tail orders extracts by the key with a top. -/
theorem tailCompare_ordersBy {β ι : Type*} [LinearOrder ι] {cmp : β → β → Int} {key : β → ι}
    (orders : OrdersBy cmp key) : OrdersBy (tailCompare cmp) (tailKey key) := by
  intro left right
  cases left with
  | none =>
    cases right with
    | none => exact (threeWay_self (⊤ : WithTop ι)).symm
    | some y =>
      -- The top is after every key.
      have after : (key y : WithTop ι) < ⊤ := WithTop.coe_lt_top _
      simp [tailCompare, tailKey, threeWay, after]
  | some x =>
    cases right with
    | none =>
      have before : (key x : WithTop ι) < ⊤ := WithTop.coe_lt_top _
      simp [tailCompare, tailKey, threeWay, before]
    | some y =>
      show cmp x y = threeWay (key x : WithTop ι) (key y)
      rw [orders x y]
      exact (threeWay_map WithTop.coe_strictMono (key x) (key y)).symm

/-- Comparing what is extracted puts exactly what has no extract into the tail. -/
theorem tailCompare_ordersWithTail {β ι : Type} [LinearOrder ι] {cmp : β → β → Int} {key : β → ι}
    (orders : OrdersBy cmp key) (extract : α → Option β) :
    OrdersWithTail (fun a b => tailCompare cmp (extract a) (extract b))
      fun a => (extract a).isSome = true := by
  refine ⟨ι, inferInstance, fun a => tailKey key (extract a), ?_, ?_⟩
  · intro a b
    exact tailCompare_ordersBy orders (extract a) (extract b)
  · intro a
    show tailKey key (extract a) = ⊤ ↔ ¬(extract a).isSome = true
    cases extract a <;> simp [tailKey]

/-- Only the results of a comparator matter. -/
theorem OrdersWithTail.congr (orders : OrdersWithTail compare representable)
    {other : α → α → Int} (same : ∀ a b, other a b = compare a b) :
    OrdersWithTail other representable := by
  have equal : other = compare := funext fun a => funext fun b => same a b
  rwa [equal]

/-- A comparator by a key may answer for identical arguments at once. -/
theorem OrdersWithTail.shortcut [DecidableEq α] (orders : OrdersWithTail compare representable) :
    OrdersWithTail (fun a b => if a = b then 0 else compare a b) representable := by
  refine orders.congr fun a b => ?_
  obtain ⟨ι, _, key, byKey, _⟩ := orders
  by_cases same : a = b
  · rw [if_pos same, byKey, same, threeWay_self]
  · rw [if_neg same]

/-- A comparator without a tail, all of whose values are representable. -/
theorem OrdersBy.withoutTail {ι : Type} [LinearOrder ι] {key : α → ι}
    (orders : OrdersBy compare key) (all : ∀ a, representable a) :
    OrdersWithTail compare representable := by
  refine ⟨ι, inferInstance, fun a => (key a : WithTop ι), ?_, ?_⟩
  · intro a b
    rw [orders]
    exact (threeWay_map WithTop.coe_strictMono (key a) (key b)).symm
  · intro a
    simp [all a]

end Comparators

end Loglib
