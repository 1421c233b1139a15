import Loglib.App.AnchorReload
import Loglib.App.GoToTimestamp
import Loglib.App.HistogramModel

/-! Jumps from one anchored row to the next or previous one, in the order that the view shows. -/

namespace Loglib

/-- What a jump answers: a message, or the row of the proxy that becomes the current one. -/
inductive AnchorJump where
  | noAnchors
  | noneVisible
  | toRow (proxyRow : Nat)
deriving DecidableEq

namespace LogFilterModel

section Jumps

variable (locators : Nat → Bytes) (anchors : AnchorManager)

/-- Rows of the proxy that show the saved anchors, in ascending order and each once. -/
def anchoredProxyRows (proxy : LogFilterModel) : List Nat :=
  let rows := anchors.savedEntries.filterMap fun entry =>
    (HistogramSource.sourceRowForAnchorKey ⟨proxy.source.table, locators⟩ entry.1).bind
      proxy.proxyRowFor
  (rows.insertionSort (· ≤ ·)).destutter (· ≠ ·)

/-- `JumpToAnchor`, from the current row of the view if it has one. -/
def jumpToAnchor (proxy : LogFilterModel) (forward : Bool) (current : Option Nat) : AnchorJump :=
  if anchors.entries.isEmpty then .noAnchors
  else if proxy.acceptedSourceRows.length = 0 then .noneVisible
  else
    let stops := proxy.anchoredProxyRows locators anchors
    match if forward then nextStop stops current else previousStop stops current with
    | none => .noneVisible
    | some proxyRow => .toRow proxyRow

/-- The current row after a jump. A message leaves it. -/
def currentAfterJump (proxy : LogFilterModel) (forward : Bool) (current : Option Nat) :
    Option Nat :=
  match proxy.jumpToAnchor locators anchors forward current with
  | .toRow proxyRow => some proxyRow
  | _ => current

end Jumps

section Stops

/-- Dropping repeated neighbours drops no value. -/
theorem mem_destutter_ne {α : Type*} [DecidableEq α] {items : List α} {item : α} :
    item ∈ items.destutter (· ≠ ·) ↔ item ∈ items := by
  have walk (rest : List α) : ∀ head, item ∈ rest.destutter' (· ≠ ·) head ↔
      item = head ∨ item ∈ rest := by
    induction rest with
    | nil => simp
    | cons next rest ih =>
      intro head
      rw [List.destutter'_cons]
      by_cases same : head = next
      · -- The neighbour is dropped, and is the head.
        subst same
        simp [ih]
      · simp [same, ih]
  cases items with
  | nil => rfl
  | cons head rest => rw [List.destutter_cons', walk, List.mem_cons]

variable {proxy : LogFilterModel} {vformat : Bytes → LogValue → Bytes} {locators : Nat → Bytes}
    {anchors : AnchorManager}

/-- A row of the proxy shows the row of a saved anchor: the first one of the log with its key. -/
def StopsAt (proxy : LogFilterModel) (locators : Nat → Bytes) (anchors : AnchorManager)
    (proxyRow : Nat) : Prop :=
  ∃ row, proxy.proxyRowToSource proxyRow = some row ∧ ∃ key value, anchors.find key = some value ∧
    key.locator ≠ [] ∧
    HistogramSource.sourceRowForAnchorKey ⟨proxy.source.table, locators⟩ key = some row

/-- The stops ascend. -/
theorem anchoredProxyRows_lt (proxy : LogFilterModel) (locators : Nat → Bytes)
    (anchors : AnchorManager) :
    (proxy.anchoredProxyRows locators anchors).Pairwise (· < ·) := by
  unfold anchoredProxyRows
  dsimp only
  generalize anchors.savedEntries.filterMap _ = rows
  -- The rows are sorted, and what is left of equal ones is one.
  have sorted := (List.pairwise_insertionSort (· ≤ ·) rows).sublist
    (List.destutter_sublist (· ≠ ·) (rows.insertionSort (· ≤ ·)))
  have apart := List.isChain_destutter (· ≠ ·) (rows.insertionSort (· ≤ ·))
  apply List.isChain_iff_pairwise.mp
  rw [List.isChain_iff_getElem] at apart ⊢
  intro index inside
  have ordered := List.pairwise_iff_getElem.mp sorted index (index + 1) (by omega) inside (by omega)
  exact lt_of_le_of_ne ordered (apart index inside)

/-- The stops are the rows that show anchors. -/
theorem Exact.mem_anchoredProxyRows (exact_ : proxy.Exact vformat) {proxyRow : Nat} :
    proxyRow ∈ proxy.anchoredProxyRows locators anchors ↔
      proxy.StopsAt locators anchors proxyRow := by
  unfold anchoredProxyRows StopsAt
  simp only [mem_destutter_ne, List.mem_insertionSort, List.mem_filterMap, Option.bind_eq_some_iff,
    Prod.exists,
    AnchorManager.mem_savedEntries, exact_.proxyRowFor_iff]
  -- Row and entry determine each other through the key.
  constructor
  · intro given
    obtain ⟨key, value, ⟨found, file⟩, row, located, shown⟩ := given
    exact ⟨row, shown, key, value, found, file, located⟩
  · intro given
    obtain ⟨row, shown, key, value, found, file, located⟩ := given
    exact ⟨key, value, ⟨found, file⟩, row, located, shown⟩

/-- Where there are stops, a jump goes to the next or to the previous one. -/
theorem Exact.currentAfterJump_eq (exact_ : proxy.Exact vformat)
    (some_ : proxy.anchoredProxyRows locators anchors ≠ [])
    (forward : Bool) (current : Option Nat) :
    proxy.currentAfterJump locators anchors forward current =
      if forward then nextStop (proxy.anchoredProxyRows locators anchors) current
      else previousStop (proxy.anchoredProxyRows locators anchors) current := by
  -- A stop is a row of the proxy, and comes from an anchor.
  obtain ⟨stop, listed⟩ := List.exists_mem_of_ne_nil _ some_
  obtain ⟨row, shown, key, value, found, _, _⟩ := exact_.mem_anchoredProxyRows.mp listed
  have anchored : anchors.entries.isEmpty = false :=
    List.isEmpty_eq_false_iff.mpr (List.ne_nil_of_mem (KeyedList.mem_entries_iff.mpr found))
  obtain ⟨midRow, placed, _⟩ := Option.bind_eq_some_iff.mp shown
  have rows : proxy.acceptedSourceRows.length ≠ 0 := by
    have inside := (List.getElem?_eq_some_iff.mp placed).1
    omega
  have target : ∃ proxyRow,
    (if forward then nextStop (proxy.anchoredProxyRows locators anchors) current
      else previousStop (proxy.anchoredProxyRows locators anchors) current) = some proxyRow := by
    cases forward with
    | true =>
      obtain ⟨index, inside, same⟩ := nextStop_mem some_ current
      exact ⟨_, same.trans (List.getElem?_eq_getElem inside)⟩
    | false =>
      obtain ⟨index, inside, same⟩ :=
        previousStop_mem (proxy.anchoredProxyRows_lt locators anchors) some_ current
      exact ⟨_, same.trans (List.getElem?_eq_getElem inside)⟩
  obtain ⟨proxyRow, same⟩ := target
  simp [currentAfterJump, jumpToAnchor, anchored, rows, same]

end Stops

section Tours

variable {proxy : LogFilterModel} {vformat : Bytes → LogValue → Bytes}

/-- What jumps do, whatever the anchors, the filter, the sort and the current row are: they stop at
the rows that show saved anchors; a jump goes to the first stop past the current row, or to the last
one before it, and around the end; as many jumps as there are stops visit each of them once; a jump
back from a stop undoes a jump; and without stops there is a message. -/
structure ToursAnchors (proxy : LogFilterModel) (locators : Nat → Bytes) (anchors : AnchorManager)
    (stops : List Nat) : Prop where
  ascending : stops.Pairwise (· < ·)
  stop_iff : ∀ proxyRow, proxyRow ∈ stops ↔ proxy.StopsAt locators anchors proxyRow
  message : stops = [] → ∀ forward current,
    proxy.jumpToAnchor locators anchors forward current = if anchors.entries.isEmpty then .noAnchors
      else .noneVisible
  next : stops ≠ [] → ∀ current, proxy.currentAfterJump locators anchors true current =
    (stops.find? fun stop => current.all (· < stop)).or stops.head?
  previous : stops ≠ [] → ∀ current, proxy.currentAfterJump locators anchors false current =
    (stops.reverse.find? fun stop => current.all (stop < ·)).or stops.getLast?
  tour : stops ≠ [] → ∀ forward current,
    ((List.range stops.length).map fun count =>
      (proxy.currentAfterJump locators anchors forward)^[count + 1] current).Perm
      (stops.map some)
  undo : ∀ stop ∈ stops, ∀ forward, proxy.currentAfterJump locators anchors (!forward)
    (proxy.currentAfterJump locators anchors forward (some stop)) = some stop

/-- Jumps tour the anchored rows that an exact proxy shows. -/
theorem jumpToAnchor_tours (exact_ : proxy.Exact vformat) (locators : Nat → Bytes)
    (anchors : AnchorManager) :
    proxy.ToursAnchors locators anchors (proxy.anchoredProxyRows locators anchors) := by
  have ascending := proxy.anchoredProxyRows_lt locators anchors
  refine ⟨ascending, fun _ => exact_.mem_anchoredProxyRows, ?_, ?_, ?_, ?_, ?_⟩
  · -- Without stops no jump moves.
    intro none_ forward current
    unfold jumpToAnchor
    split
    · rfl
    · split
      · rfl
      · rw [none_]
        cases forward <;> rfl
  · intro some_ current
    rw [exact_.currentAfterJump_eq some_, if_pos rfl, nextStop_eq ascending]
  · intro some_ current
    rw [exact_.currentAfterJump_eq some_, if_neg Bool.false_ne_true, previousStop_eq ascending]
  · -- A jump is a step of the tour, forwards or backwards.
    intro some_ forward current
    have jumps : proxy.currentAfterJump locators anchors forward =
        if forward then nextStop (proxy.anchoredProxyRows locators anchors) else
          previousStop (proxy.anchoredProxyRows locators anchors) := by
      funext place
      rw [exact_.currentAfterJump_eq some_]
      cases forward <;> rfl
    rw [jumps]
    cases forward with
    | true => exact nextStop_tour ascending some_ current
    | false => exact previousStop_tour ascending some_ current
  · -- One jump and the other way round end where they began.
    intro stop listed forward
    have some_ := List.ne_nil_of_mem listed
    obtain ⟨back, ahead⟩ := previousStop_nextStop ascending listed
    rw [exact_.currentAfterJump_eq some_, exact_.currentAfterJump_eq some_]
    cases forward with
    | true => exact back
    | false => exact ahead

/-- The first and the last row of the log are anchored, and the view shows the newest row first. -/
def anchoredEnds : AnchorManager :=
  [AnchorManager.AnchorStep.setAnchor ⟨bytes "a", 1⟩ 0, .setAnchor ⟨bytes "a", 4⟩ 3,
    .setAnchor ⟨bytes "b", 2⟩ 1].foldl
    AnchorManager.step .empty

/-- Two jumps from the middle visit both. -/
theorem anchoredEnds_toured :
    (ofSource (SourceModel.ofTable timedModel.table).reversed).anchoredProxyRows
      (fun _ => bytes "a") anchoredEnds = [0, 3] ∧
      (ofSource (SourceModel.ofTable timedModel.table).reversed).ToursAnchors
        (fun _ => bytes "a") anchoredEnds
        ((ofSource (SourceModel.ofTable timedModel.table).reversed).anchoredProxyRows (fun _ =>
          bytes "a") anchoredEnds) :=
  ⟨by decide, jumpToAnchor_tours (ofSource_exact (fun _ _ => []) _) _ _⟩

end Tours

end LogFilterModel

end Loglib
