import Mathlib

/-! Lists that show named items in strictly ascending order, and what one insertion, change or
removal does to them. -/

namespace Loglib.SortedView

variable {ι ν κ : Type*} [LinearOrder κ]

/-- The items stand in strictly ascending order of their names. -/
def Ascending (name : ι → ν) (rank : ν → κ) (items : List ι) : Prop :=
  items.Pairwise fun first second => rank (name first) < rank (name second)

/-- Put an item in front of the first one that belongs behind it. -/
def insert (name : ι → ν) (rank : ν → κ) (item : ι) (items : List ι) : List ι :=
  items.insertIdx (items.findIdx fun other => rank (name item) < rank (name other)) item

section Order

variable {name : ι → ν} {rank : ν → κ} {items : List ι}

/-- Two lists in order that show the same items are one list. -/
theorem Ascending.ext {others : List ι} (ascending : Ascending name rank items)
    (also : Ascending name rank others)
    (members : ∀ item, item ∈ items ↔ item ∈ others) : items = others := by
  have once {shown : List ι} (ordered : Ascending name rank shown) : shown.Nodup :=
    ordered.imp fun less equal => less.ne (congrArg (fun item => rank (name item)) equal)
  have permuted := (List.perm_ext_iff_of_nodup (once ascending) (once also)).mpr members
  refine List.Perm.eq_of_pairwise (fun first second _ _ less greater => ?_) ascending also permuted
  exact absurd greater less.not_gt

/-- An inserted item is shown, and the others stay. -/
theorem mem_insert {item other : ι} :
    other ∈ insert name rank item items ↔ other = item ∨ other ∈ items := by
  exact List.mem_insertIdx List.findIdx_le_length

/-- An item with a new name is inserted in order. -/
theorem Ascending.insert (ascending : Ascending name rank items)
    (injective : Function.Injective rank) {item : ι}
    (fresh : ∀ other ∈ items, name other ≠ name item) :
    Ascending name rank (insert name rank item items) := by
  induction items with
  | nil => exact List.pairwise_singleton _ _
  | cons head rest ih =>
    obtain ⟨above, ordered⟩ := List.pairwise_cons.mp ascending
    unfold SortedView.insert
    rw [List.findIdx_cons]
    by_cases behind : rank (name item) < rank (name head)
    · -- The item belongs in front of the head, and so in front of all others.
      simp only [behind, decide_true, cond_true, List.insertIdx_zero]
      refine List.pairwise_cons.mpr ⟨fun other listed => ?_, ascending⟩
      rcases List.mem_cons.mp listed with same | later
      · exact same ▸ behind
      · exact behind.trans (above other later)
    · simp only [behind, decide_false, cond_false, List.insertIdx_succ_cons]
      have front : rank (name head) < rank (name item) := by
        apply lt_of_le_of_ne (not_lt.mp behind)
        intro equal
        exact fresh head List.mem_cons_self (injective equal)
      refine List.pairwise_cons.mpr ⟨fun other listed => ?_, ih ordered fun other later =>
        fresh other (List.mem_cons_of_mem _ later)⟩
      rcases mem_insert.mp listed with same | later
      · exact same ▸ front
      · exact above other later

end Order

variable [DecidableEq ν]

/-- Change the first item of a name. -/
def change (name : ι → ν) (wanted : ν) (edit : ι → ι) (items : List ι) : List ι :=
  items.modify (items.findIdx fun item => name item = wanted) edit

/-- Remove the first item of a name. -/
def remove (name : ι → ν) (wanted : ν) (items : List ι) : List ι :=
  items.eraseP fun item => name item = wanted

section Edits

variable {name : ι → ν} {rank : ν → κ} {items : List ι} {wanted : ν} {edit : ι → ι}

/-- The rest of a list in order is shown after a removal. -/
theorem Ascending.remove (ascending : Ascending name rank items) :
    Ascending name rank (remove name wanted items) :=
  ascending.sublist List.eraseP_sublist

/-- A removal removes the item of the name. -/
theorem Ascending.mem_remove (ascending : Ascending name rank items) {item : ι} :
    item ∈ SortedView.remove name wanted items ↔ item ∈ items ∧ name item ≠ wanted := by
  unfold SortedView.remove
  induction items with
  | nil => simp
  | cons head rest ih =>
    obtain ⟨above, ordered⟩ := List.pairwise_cons.mp ascending
    rw [List.eraseP_cons]
    by_cases found : name head = wanted
    · -- The head is the one that goes, and no item behind it has the same name.
      simp only [found, decide_true, cond_true, List.mem_cons]
      constructor
      · intro later
        refine ⟨.inr later, fun same => ?_⟩
        exact (above item later).ne (congrArg rank (found.trans same.symm))
      · intro given
        obtain ⟨listed, differs⟩ := given
        rcases listed with rfl | later
        · exact absurd found differs
        · exact later
    · -- The head stays, and the rest decides.
      simp only [found, decide_false, cond_false, List.mem_cons, ih ordered]
      constructor
      · intro listed
        rcases listed with rfl | ⟨later, differs⟩
        · exact ⟨.inl rfl, found⟩
        · exact ⟨.inr later, differs⟩
      · intro given
        obtain ⟨listed, differs⟩ := given
        rcases listed with rfl | later
        · exact .inl rfl
        · exact .inr ⟨later, differs⟩

omit [LinearOrder κ] in
/-- A change looks at one item after the other. -/
theorem change_cons (head : ι) (rest : List ι) : change name wanted edit (head :: rest) =
    if name head = wanted then edit head :: rest else head :: change name wanted edit rest := by
  unfold change
  rw [List.findIdx_cons]
  by_cases found : name head = wanted
  · simp [found]
  · simp [found]

omit [LinearOrder κ] in
/-- A change that keeps the name of its item keeps them all. -/
theorem map_change (keeps : ∀ item, name (edit item) = name item) :
    (change name wanted edit items).map name = items.map name := by
  -- The edited item keeps its name.
  induction items with
  | nil => rfl
  | cons head rest ih =>
    rw [change_cons]
    split
    · rw [List.map_cons, List.map_cons, keeps]
    · rw [List.map_cons, List.map_cons, ih]

omit [LinearOrder κ] in
/-- So the same names are there. -/
theorem any_change (keeps : ∀ item, name (edit item) = name item) (other : ν) :
    ((change name wanted edit items).any fun item => name item = other) = items.any fun item =>
      name item = other := by
  have names : (change name wanted edit items).map name = items.map name := map_change keeps
  have byName := congrArg (fun names => names.any fun held => decide (held = other)) names
  simpa [List.any_map, Function.comp_def] using byName

/-- A change that keeps the names keeps the order. -/
theorem Ascending.change (ascending : Ascending name rank items)
    (keeps : ∀ item, name (edit item) = name item) :
    Ascending name rank (change name wanted edit items) := by
  have byName : (items.map name).Pairwise fun first second => rank first < rank second :=
    List.pairwise_map.mpr ascending
  rw [← map_change keeps, List.pairwise_map] at byName
  exact byName

/-- A change changes the item of the name. -/
theorem Ascending.mem_change (ascending : Ascending name rank items) {item : ι} :
    item ∈ SortedView.change name wanted edit items ↔
      (item ∈ items ∧ name item ≠ wanted) ∨ ∃ old ∈ items, name old = wanted ∧ item = edit old := by
  induction items with
  | nil => simp [SortedView.change]
  | cons head rest ih =>
    obtain ⟨above, ordered⟩ := List.pairwise_cons.mp ascending
    rw [change_cons]
    by_cases found : name head = wanted
    · -- No later item has the name of the head.
      have others : ∀ later ∈ rest, name later ≠ wanted := by
        intro later listed same
        exact (above later listed).ne (congrArg rank (found.trans same.symm))
      rw [if_pos found]
      simp only [List.mem_cons, exists_eq_or_imp, found, true_and]
      constructor
      · intro shown
        rcases shown with same | later
        · exact .inr (.inl same)
        · exact .inl ⟨.inr later, others item later⟩
      · intro shown
        rcases shown with ⟨listed, differs⟩ | same | ⟨old, later, named, _⟩
        · rcases listed with rfl | later
          · exact absurd found differs
          · exact .inr later
        · exact .inl same
        · exact absurd named (others old later)
    · rw [if_neg found]
      simp only [List.mem_cons, ih ordered, exists_eq_or_imp, found, false_and, false_or]
      constructor
      · intro shown
        rcases shown with rfl | ⟨later, differs⟩ | changed
        · exact .inl ⟨.inl rfl, found⟩
        · exact .inl ⟨.inr later, differs⟩
        · exact .inr changed
      · intro shown
        rcases shown with ⟨rfl | later, differs⟩ | changed
        · exact .inl rfl
        · exact .inr (.inl ⟨later, differs⟩)
        · exact .inr (.inr changed)

/-- Changing a position changes the item of its name. -/
theorem Ascending.modify_eq_change (ascending : Ascending name rank items)
    {position : Nat} {item : ι}
    (held : items[position]? = some item) :
    items.modify position edit = SortedView.change name (name item) edit items := by
  -- An item at a later position has another name than the first, as its rank is above.
  induction items generalizing position with
  | nil => cases held
  | cons head rest ih =>
    obtain ⟨above, ordered⟩ := List.pairwise_cons.mp ascending
    rw [change_cons]
    cases position with
    | zero =>
      obtain rfl := Option.some.inj held
      rw [if_pos rfl, List.modify_zero_cons]
    | succ position =>
      have later : rest[position]? = some item := held
      have differs : name head ≠ name item := fun same =>
        (above item (List.mem_of_getElem? later)).ne (congrArg rank same)
      rw [if_neg differs, List.modify_succ_cons, ih ordered later]

omit [LinearOrder κ] in
/-- Two changes of one item are one change. -/
theorem change_change {first : ι → ι} (keeps : ∀ item, name (first item) = name item) :
    change name wanted edit (change name wanted first items) = change name wanted
      (edit ∘ first) items := by
  -- The first edit keeps the name, so the second finds the same item.
  induction items with
  | nil => rfl
  | cons head rest ih =>
    rw [change_cons, change_cons]
    by_cases found : name head = wanted
    · rw [if_pos found, if_pos found, change_cons, keeps, if_pos found]
      rfl
    · rw [if_neg found, if_neg found, change_cons, if_neg found, ih]

end Edits

end Loglib.SortedView
