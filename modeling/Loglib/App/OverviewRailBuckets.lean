import Loglib.App.HistogramRuns
import Loglib.App.OverviewRailModel

/-! What a rebuild of the overview rail leaves in its buckets. -/

namespace Loglib

namespace RailView

variable (view : RailView)

/-- Number of visible rows. -/
def rowCount : Nat := view.sourceRows.length

/-- The level of a visible row, in the first Level column. -/
def levelAt (row : Nat) : Option LogLevel := view.sourceRows[row]?.join.map view.source.levelForRow

/-- The colour of the anchor of a visible row. -/
def slotAt (anchors : AnchorManager) (row : Nat) : Option AnchorColor :=
  view.sourceRows[row]?.join.bind (view.source.anchorSlotForRow anchors)

/-- How many of the first rows lie in a bucket and have a property. -/
def rowsInBucket (bucketCount bucket count : Nat) (holds : Nat → Bool) : Nat :=
  (List.range count).countP fun row => evenBucket view.rowCount bucketCount row = bucket ∧ holds row

variable {view} {bucketCount bucket count : Nat} {holds : Nat → Bool}

/-- No more rows lie in a bucket than there are. -/
theorem rowsInBucket_le : view.rowsInBucket bucketCount bucket count holds ≤ count :=
  List.countP_le_length.trans List.length_range.le

end RailView

namespace OverviewRailModel

/-- The number of bits that are set. -/
def bitsSet (buckets : List RailBucket) : Nat :=
  (buckets.map fun bucket => bucket.anchorSlots.card).sum

variable {model : OverviewRailModel} {row bucket : Nat}

/-- The bucket of a visible row, as long as the product fits its type. -/
theorem bucketOfRow_eq (height : model.buckets.length < 2 ^ 32)
    (rows : model.proxyRowCount < 2 ^ 31)
    (inside : row < model.proxyRowCount) (some_ : model.buckets ≠ []) :
    model.bucketOfRow row = evenBucket model.proxyRowCount model.buckets.length row := by
  -- A row is an `int`, and the rail is lower than the other half of a `size_t`.
  have fits : row * model.buckets.length < 2 ^ 64 := by
    calc row * model.buckets.length ≤ 2 ^ 31 * 2 ^ 32 := Nat.mul_le_mul (by omega) (by omega)
      _ < 2 ^ 64 := by norm_num
  have lt := evenBucket_lt inside (List.length_pos_iff.mpr some_)
  rw [bucketOfRow, Nat.mod_eq_of_lt fits]
  exact min_eq_left (Nat.le_sub_one_of_lt lt)

section Bits

/-- Changing one bucket changes the number of bits by its own. -/
theorem bitsSet_modify {buckets : List RailBucket} {held : RailBucket}
    (present : buckets[bucket]? = some held)
    (change : RailBucket → RailBucket) :
    bitsSet (buckets.modify bucket change) + held.anchorSlots.card = bitsSet buckets +
      (change held).anchorSlots.card := by
  -- The induction is on the buckets, and the one that changes is the first or a later one.
  induction buckets generalizing bucket with
  | nil => simp at present
  | cons first rest ih =>
    cases bucket with
    | zero =>
      obtain rfl : first = held := by simpa using present
      simp only [bitsSet, List.modify_zero_cons, List.map_cons, List.sum_cons]
      omega
    | succ bucket =>
      have later := @ih bucket (by simpa using present)
      simp only [bitsSet, List.modify_succ_cons, List.map_cons, List.sum_cons] at later ⊢
      omega

/-- The number of bits is kept with the buckets. -/
def withBuckets (model : OverviewRailModel) (buckets : List RailBucket) : OverviewRailModel :=
  { model with buckets, anchorBucketBitsSet := bitsSet buckets }

/-- Setting a bit that is set already changes nothing, and the number of bits is right
either way. -/
theorem setAnchorBit_eq (bits : model.anchorBucketBitsSet = bitsSet model.buckets)
    (inside : bucket < model.buckets.length)
    (slot : AnchorColor) :
    model.setAnchorBit bucket slot = model.withBuckets
      (model.buckets.modify bucket (RailBucket.setSlot slot)) := by
  obtain ⟨held, present⟩ : ∃ held, model.buckets[bucket]? = some held :=
    ⟨_, List.getElem?_eq_getElem inside⟩
  have changed := bitsSet_modify present (RailBucket.setSlot slot)
  unfold setAnchorBit
  rw [present, Option.any_some]
  split
  · rename_i set
    have set : slot ∈ held.anchorSlots := by simpa using set
    -- The bucket is the one it was.
    have same : RailBucket.setSlot slot held = held := by
      rw [RailBucket.setSlot, Finset.insert_eq_of_mem set]
    rw [modify_of_fixed present same, withBuckets, ← bits]
  · rename_i unset
    have unset : slot ∉ held.anchorSlots := by simpa using unset
    have one : (RailBucket.setSlot slot held).anchorSlots.card = held.anchorSlots.card + 1 :=
      Finset.card_insert_of_notMem unset
    have total : model.anchorBucketBitsSet + 1 =
        bitsSet (model.buckets.modify bucket (RailBucket.setSlot slot)) := by omega
    rw [withBuckets, ← total]

end Bits

section Walk

/-- What a row adds to its bucket: its level, and the colour of its anchor. -/
def takeRow (model : OverviewRailModel) (row : Nat) (bucket : RailBucket) : RailBucket :=
  match model.proxyToSourceRow row with
  | none => bucket
  | some sourceRow =>
    let counted := bucket.countLevel (model.levelForSourceRow sourceRow)
    match model.view.source.anchorSlotForRow model.anchors sourceRow with
    | none => counted
    | some slot => counted.setSlot slot

/-- Counting a level changes no bits. -/
theorem bitsSet_countLevel (buckets : List RailBucket) (bucket : Nat) (level : LogLevel) :
    bitsSet (buckets.modify bucket (RailBucket.countLevel level)) = bitsSet buckets := by
  cases present : buckets[bucket]? with
  | none => rw [List.modify_eq_self (List.getElem?_eq_none_iff.mp present)]
  | some held => exact Nat.add_right_cancel (bitsSet_modify present _)

/-- One row of the walk adds what it has to its bucket. -/
theorem walkRow_eq (bits : model.anchorBucketBitsSet = bitsSet model.buckets)
    (inside : model.bucketOfRow row < model.buckets.length) :
    walkRow (!model.anchors.entries.isEmpty) model row =
      model.withBuckets (model.buckets.modify (model.bucketOfRow row) (model.takeRow row)) := by
  have counted (level : LogLevel) : model.anchorBucketBitsSet =
      bitsSet (model.buckets.modify (model.bucketOfRow row) (RailBucket.countLevel level)) :=
    bits.trans (bitsSet_countLevel model.buckets _ level).symm
  cases source : model.proxyToSourceRow row with
  | none =>
    -- A row that the proxies lose adds nothing.
    have idle : model.takeRow row = id := by
      funext bucket
      rw [takeRow, source]
      rfl
    rw [walkRow, source, idle, List.modify_id, withBuckets, ← bits]
  | some sourceRow =>
    rw [walkRow, source]
    dsimp only
    cases anchored : model.view.source.anchorSlotForRow model.anchors sourceRow with
    | none =>
      have takes : model.takeRow row = RailBucket.countLevel
          (model.levelForSourceRow sourceRow) := by
        funext bucket
        simp only [takeRow, source, anchored]
      rw [takes, withBuckets, ← counted]
      split <;> rfl
    | some slot =>
      have takes : model.takeRow row =
          RailBucket.setSlot slot ∘ RailBucket.countLevel (model.levelForSourceRow sourceRow) := by
        funext bucket
        simp only [takeRow, source, anchored, Function.comp_apply]
      -- A row has a colour only where there are anchors, so the walk tracks them.
      have tracked : model.anchors.entries.isEmpty = false := by
        by_contra none_
        rw [HistogramSource.anchorSlotForRow, if_pos (by simpa using none_)] at anchored
        exact Option.some_ne_none slot anchored.symm
      rw [tracked, takes, ← List.modify_modify_eq]
      exact @setAnchorBit_eq { model with
        buckets := model.buckets.modify (model.bucketOfRow row)
          (RailBucket.countLevel (model.levelForSourceRow sourceRow)) }
        _ (counted _) (by rw [List.length_modify]; exact inside) slot

/-- The walk over some rows adds each to its bucket. -/
theorem foldl_walkRow (rows : List Nat) (bits : model.anchorBucketBitsSet = bitsSet model.buckets)
    (inside : ∀ row, model.bucketOfRow row < model.buckets.length) :
    rows.foldl (walkRow !model.anchors.entries.isEmpty) model = model.withBuckets
      (rows.foldl (fun buckets row => buckets.modify (model.bucketOfRow row) (model.takeRow row))
        model.buckets) := by
  -- The induction is on the rows, over any buckets that are as many.
  suffices all : ∀ buckets : List RailBucket, buckets.length = model.buckets.length →
      rows.foldl (walkRow !model.anchors.entries.isEmpty) (model.withBuckets buckets) =
        model.withBuckets
        (rows.foldl (fun buckets row => buckets.modify (model.bucketOfRow row) (model.takeRow row))
          buckets) by
    have whole := all model.buckets rfl
    rwa [withBuckets, ← bits] at whole
  induction rows with
  | nil => exact fun buckets _ => rfl
  | cons row rest ih =>
    intro buckets length
    -- The bucket of a row depends on the number of buckets, not on what is in them.
    have slot : (model.withBuckets buckets).bucketOfRow row = model.bucketOfRow row := by
      show min (row * buckets.length % 2 ^ 64 / model.proxyRowCount) (buckets.length - 1) = _
      rw [length]
      rfl
    have first := @walkRow_eq (model.withBuckets buckets) row
      rfl (by rw [slot]; exact (inside row).trans_eq length.symm)
    rw [slot] at first
    rw [List.foldl_cons, List.foldl_cons]
    exact (congrArg (rest.foldl (walkRow !model.anchors.entries.isEmpty)) first).trans
      (ih _ ((List.length_modify _ _ _).trans length))

/-- The cached column is the first Level column, so levels are read as the view shows them. -/
theorem levelForSourceRow_eq (current : model.levelColumnIndex = model.computeLevelColumnIndex) :
    model.levelForSourceRow = model.view.source.levelForRow := by
  funext sourceRow
  rw [levelForSourceRow, current, computeLevelColumnIndex, HistogramSource.levelForRow]
  -- The two look up the level in the same way.
  cases model.view.source.table.configuration.firstLevelColumnIndex with
  | none => rfl
  | some column => rfl

/-- A row counts its level. -/
theorem takeRow_counts (current : model.levelColumnIndex = model.computeLevelColumnIndex)
    (row : Nat) (held : RailBucket)
    (level : LogLevel) :
    (model.takeRow row held).levels.counts level =
      held.levels.counts level + UInt32.ofNat
        (if model.view.levelAt row = some level then 1 else 0) := by
  have counted (shown : LogLevel) : (held.countLevel shown).levels.counts level =
      held.levels.counts level + UInt32.ofNat (if shown = level then 1 else 0) := by
    show Function.update held.levels.counts shown (held.levels.counts shown + 1) level = _
    by_cases same : shown = level
    · subst same
      rw [Function.update_self, if_pos rfl]
      rfl
    · rw [Function.update_of_ne (Ne.symm same), if_neg same]
      exact (UInt32.add_zero _).symm
  unfold takeRow RailView.levelAt
  rw [levelForSourceRow_eq current]
  show _ = held.levels.counts level + UInt32.ofNat (if (model.proxyToSourceRow row).map _ =
    some level then 1 else 0)
  cases model.proxyToSourceRow row with
  | none => exact (UInt32.add_zero _).symm
  | some sourceRow =>
    simp only [Option.map_some, Option.some.injEq]
    -- A colour changes no count.
    rw [← counted]
    split <;> rfl

/-- A row sets the bit of its anchor. -/
theorem mem_takeRow (row : Nat) (held : RailBucket) (slot : AnchorColor) :
    slot ∈ (model.takeRow row held).anchorSlots ↔
      model.view.slotAt model.anchors row = some slot ∨ slot ∈ held.anchorSlots := by
  unfold takeRow RailView.slotAt
  show _ ↔ (model.proxyToSourceRow row).bind _ = some slot ∨ _
  cases model.proxyToSourceRow row with
  | none => simp
  | some sourceRow =>
    rw [Option.bind_some]
    -- The row sets a bit exactly if its source row has a colour.
    cases anchored : model.view.source.anchorSlotForRow model.anchors sourceRow with
    | none => simp [anchored, RailBucket.countLevel]
    | some other =>
      simp only [anchored, RailBucket.setSlot, RailBucket.countLevel, Finset.mem_insert,
        Option.some.injEq, eq_comm]

/-- A row is no match. -/
theorem takeRow_matchCount (row : Nat) (held : RailBucket) :
    (model.takeRow row held).matchCount = held.matchCount := by
  unfold takeRow
  split
  · rfl
  · dsimp only
    split <;> rfl

/-- What some rows add to one bucket. -/
theorem foldl_takeRow (current : model.levelColumnIndex = model.computeLevelColumnIndex)
    (rows : List Nat) (held : RailBucket) :
    (∀ level, (rows.foldl (fun held row => model.takeRow row held) held).levels.counts level =
      held.levels.counts level + UInt32.ofNat (rows.countP fun row =>
        model.view.levelAt row = some level)) ∧
    (∀ slot, slot ∈ (rows.foldl (fun held row => model.takeRow row held) held).anchorSlots ↔
      slot ∈ held.anchorSlots ∨ ∃ row ∈ rows, model.view.slotAt model.anchors row = some slot) ∧
    (rows.foldl (fun held row => model.takeRow row held) held).matchCount = held.matchCount := by
  induction rows generalizing held with
  | nil => exact ⟨fun level => (UInt32.add_zero _).symm, by simp, rfl⟩
  | cons row rest ih =>
    -- The first row is taken by the bucket that the others find.
    obtain ⟨counts, slots, matches_⟩ := ih (model.takeRow row held)
    rw [List.foldl_cons]
    refine ⟨fun level => ?_, fun slot => ?_, matches_.trans (takeRow_matchCount row held)⟩
    · rw [counts, takeRow_counts current, UInt32.add_assoc, ← UInt32.ofNat_add, List.countP_cons,
        Nat.add_comm]
      simp only [decide_eq_true_eq]
    · rw [slots, mem_takeRow]
      simp only [List.mem_cons, exists_eq_or_imp]
      tauto

end Walk

section Matches

/-- The buckets after some matches. -/
def matchedBuckets (model : OverviewRailModel) (rows : List Nat) : List RailBucket :=
  rows.foldl (fun buckets row => buckets.modify (model.bucketOfRow row) RailBucket.countMatch)
    model.buckets

/-- The fold of the matches changes the buckets and the total only. -/
theorem foldl_countMatch (rows : List Nat) (model : OverviewRailModel) :
    ∃ counted, rows.foldl (fun (model : OverviewRailModel) (row : Nat) =>
      { model with
        buckets := model.buckets.modify (model.bucketOfRow row) RailBucket.countMatch
        bucketedMatchCount := model.bucketedMatchCount + 1 }) model =
      { model with buckets := model.matchedBuckets rows, bucketedMatchCount := counted } := by
  induction rows generalizing model with
  | nil => exact ⟨_, rfl⟩
  | cons row rest ih =>
    generalize first_ : ({ model with
      buckets := model.buckets.modify (model.bucketOfRow row) RailBucket.countMatch
      bucketedMatchCount := model.bucketedMatchCount + 1 } : OverviewRailModel) = first
    obtain ⟨counted, later⟩ := ih first
    refine ⟨counted, ?_⟩
    -- There are as many buckets, so the other rows have the buckets they had.
    have slots : first.bucketOfRow = model.bucketOfRow := by
      funext other
      rw [bucketOfRow, bucketOfRow, ← first_, List.length_modify]
    rw [List.foldl_cons, first_, later]
    unfold matchedBuckets
    rw [slots, List.foldl_cons, ← first_]

/-- A fold that has nothing to do is one over no matches. -/
theorem foldMatchTicksIntoBuckets_eq (model : OverviewRailModel) :
    ∃ counted, model.foldMatchTicksIntoBuckets =
      { model with
        buckets := model.matchedBuckets model.visibleMatches
        bucketedMatchCount := counted } := by
  unfold foldMatchTicksIntoBuckets
  split
  · rename_i idle
    refine ⟨model.bucketedMatchCount, ?_⟩
    -- Without buckets nothing is changed, and without rows no match is visible.
    have same : model.matchedBuckets model.visibleMatches = model.buckets := by
      rcases idle with none_ | none_
      · rw [matchedBuckets, none_]
        exact List.foldl_fixed' (fun row => List.modify_nil _ _) _
      · -- No match is one of no rows.
        have noMatches : model.visibleMatches = [] := by
          rw [visibleMatches, none_, List.map_eq_nil_iff, List.filter_eq_nil_iff]
          intro row _
          simp only [decide_eq_true_eq]
          omega
        rw [noMatches]
        rfl
    rw [same]
  · exact foldl_countMatch _ model

/-- A bucket gets one more for each match in it. -/
theorem getElem?_matchedBuckets (model : OverviewRailModel) (rows : List Nat) (bucket : Nat) :
    (model.matchedBuckets rows)[bucket]? = model.buckets[bucket]?.map fun held =>
      { held with
        matchCount := held.matchCount +
          UInt32.ofNat (rows.countP fun row => model.bucketOfRow row = bucket) } := by
  have counted (matches_ : List Nat) (held : RailBucket) :
      matches_.foldl (fun held _ => RailBucket.countMatch held) held =
        { held with matchCount := held.matchCount + UInt32.ofNat matches_.length } := by
    -- Each match adds one, whatever row it is.
    induction matches_ generalizing held with
    | nil =>
      rw [List.length_nil]
      exact congrArg (RailBucket.mk held.levels · held.anchorSlots) (UInt32.add_zero _).symm
    | cons row rest ih =>
      rw [List.foldl_cons, ih, RailBucket.countMatch, List.length_cons, Nat.add_comm,
        UInt32.ofNat_add, UInt32.add_assoc]
      rfl
  rw [matchedBuckets, getElem?_foldl_modify model.bucketOfRow (fun _ => RailBucket.countMatch)]
  congr 1
  funext held
  rw [counted, List.countP_eq_length_filter]

/-- Matches set no bits. -/
theorem bitsSet_matchedBuckets (model : OverviewRailModel) (rows : List Nat) :
    bitsSet (model.matchedBuckets rows) = bitsSet model.buckets := by
  rw [bitsSet, bitsSet]
  congr 1
  apply List.ext_getElem?
  intro bucket
  rw [List.getElem?_map, List.getElem?_map, getElem?_matchedBuckets, Option.map_map]
  rfl

/-- Each match that is a visible row is counted in its bucket. -/
theorem countP_visibleMatches (once : model.matchProxyRows.Nodup)
    (fresh : model.proxyRowCount = model.view.rowCount)
    (bucketCount bucket : Nat) :
    (model.visibleMatches.countP fun row =>
      evenBucket model.proxyRowCount bucketCount row = bucket) =
      model.view.rowsInBucket bucketCount bucket model.view.rowCount fun row =>
        (row : Int) ∈ model.matchProxyRows := by
  -- The matches are the visible rows among them, in some order.
  have same : model.visibleMatches.Perm
      ((List.range model.view.rowCount).filter fun row => (row : Int) ∈ model.matchProxyRows) := by
    apply (List.perm_ext_iff_of_nodup ?_ (List.nodup_range.filter _)).mpr
    · intro row
      simp only [visibleMatches, fresh, List.mem_map, List.mem_filter, decide_eq_true_eq,
        List.mem_range]
      constructor
      · rintro ⟨pushed, ⟨member, nonneg, below⟩, rfl⟩
        exact ⟨by omega, by rwa [Int.toNat_of_nonneg nonneg]⟩
      · rintro ⟨below, member⟩
        exact ⟨row, ⟨member, by omega, by omega⟩, Int.toNat_natCast row⟩
    · refine List.Nodup.map_on ?_ (once.filter _)
      intro first firstMember second secondMember equal
      simp only [List.mem_filter, decide_eq_true_eq] at firstMember secondMember
      omega
  rw [same.countP_eq, List.countP_filter, fresh, RailView.rowsInBucket]
  simp only [Bool.decide_and, Bool.decide_eq_true]

end Matches

section Rebuild

/-- The level counts and the bits are those of the visible rows. -/
structure CountsRows (model : OverviewRailModel) : Prop where
  rowCount : model.proxyRowCount = model.view.rowCount
  levels : ∀ bucket held, model.buckets[bucket]? = some held →
    ∀ level, (held.levels.counts level).toNat =
    model.view.rowsInBucket model.buckets.length bucket model.view.rowCount fun row =>
      model.view.levelAt row = some level
  slots : ∀ bucket held, model.buckets[bucket]? = some held → ∀ slot, slot ∈ held.anchorSlots ↔
    ∃ row < model.view.rowCount, evenBucket model.view.rowCount model.buckets.length row = bucket ∧
      model.view.slotAt model.anchors row = some slot
  bits : model.anchorBucketBitsSet = bitsSet model.buckets

/-- The rail shows the visible rows, and the matches that were pushed last. -/
structure AgreesWithRows (model : OverviewRailModel)
    (pushed : List Int) : Prop extends CountsRows model where
  matches_ : ∀ bucket held, model.buckets[bucket]? = some held → held.matchCount.toNat =
    model.view.rowsInBucket model.buckets.length bucket model.view.rowCount fun row =>
      (row : Int) ∈ pushed
  firstRow : ∀ bucket, (∃ row < model.view.rowCount,
    evenBucket model.view.rowCount model.buckets.length row = bucket) →
    ∃ first, model.firstProxyRowInBucket bucket = some first ∧
      IsLeast {row | row < model.view.rowCount ∧
        evenBucket model.view.rowCount model.buckets.length row = bucket} first

/-- What a rebuild leaves as it is. -/
structure SameReads (before after : OverviewRailModel) : Prop where
  view : after.view = before.view
  anchors : after.anchors = before.anchors
  matchProxyRows : after.matchProxyRows = before.matchProxyRows
  matchBucketCounts : after.matchBucketCounts = before.matchBucketCounts
  levelColumnIndex : after.levelColumnIndex = before.levelColumnIndex
  rebuildPending : after.rebuildPending = before.rebuildPending
  height : after.buckets.length = before.buckets.length

/-- One change after another. -/
theorem SameReads.trans {first second third : OverviewRailModel} (left : SameReads first second)
    (right : SameReads second third) : SameReads first third :=
  ⟨right.view.trans left.view, right.anchors.trans left.anchors,
    right.matchProxyRows.trans left.matchProxyRows,
    right.matchBucketCounts.trans left.matchBucketCounts,
    right.levelColumnIndex.trans left.levelColumnIndex,
    right.rebuildPending.trans left.rebuildPending, right.height.trans left.height⟩

/-- The matches that are stored are those that were pushed, each once. -/
structure StoresMatches (model : OverviewRailModel) (pushed : List Int) : Prop where
  once : model.matchProxyRows.Nodup
  same : ∀ row, row ∈ model.matchProxyRows ↔ row ∈ pushed
  rowsOwn : model.matchBucketCounts = []

variable {pushed : List Int}

/-- Number of rows of a bucket, as the 32 bits hold it. -/
theorem toNat_rowsInBucket (view : RailView) (bucketCount bucket : Nat) (holds : Nat → Bool) :
    (UInt32.ofNat (view.rowsInBucket bucketCount bucket view.rowCount holds)).toNat =
      view.rowsInBucket bucketCount bucket view.rowCount holds := by
  have le := @RailView.rowsInBucket_le view bucketCount bucket view.rowCount holds
  have few : view.rowCount < 2 ^ 31 := view.rowCount_lt
  exact UInt32.toNat_ofNat_of_lt (by norm_num; omega)

/-- A row of a bucket is found from the bucket. -/
theorem firstProxyRowInBucket_eq (fresh : model.proxyRowCount = model.view.rowCount)
    (some_ : model.buckets ≠ [])
    (inside : row < model.view.rowCount)
    (held : evenBucket model.view.rowCount model.buckets.length row = bucket) :
    ∃ first, model.firstProxyRowInBucket bucket = some first ∧
      IsLeast {row | row < model.view.rowCount ∧
        evenBucket model.view.rowCount model.buckets.length row = bucket} first := by
  have height := List.length_pos_iff.mpr some_
  have least := isLeast_evenFirstRow height inside held
  -- The bucket has a row, so it is one of the rail's, and its first row is visible.
  have lt : bucket < model.buckets.length := held ▸ evenBucket_lt inside height
  refine ⟨_, ?_, least⟩
  unfold firstProxyRowInBucket
  rw [fresh, if_neg (by omega)]
  exact congrArg some (min_eq_left (Nat.le_sub_one_of_lt least.1.1))

/-- Counting the matches changes the buckets only. -/
theorem foldMatchTicksIntoBuckets_reads (model : OverviewRailModel) :
    SameReads model model.foldMatchTicksIntoBuckets := by
  obtain ⟨counted, folded⟩ := foldMatchTicksIntoBuckets_eq model
  rw [folded]
  exact ⟨rfl, rfl, rfl, rfl, rfl, rfl, length_foldl_modify _ _ _ _⟩

/-- Counting the matches makes the rail agree. -/
theorem CountsRows.matched (counts : model.CountsRows) (some_ : model.buckets ≠ [])
    (height : model.buckets.length < 2 ^ 32)
    (unmatched : ∀ (bucket : Nat) (held : RailBucket), model.buckets[bucket]? = some held →
    held.matchCount = 0)
    (stores : model.StoresMatches pushed) :
    model.foldMatchTicksIntoBuckets.AgreesWithRows pushed := by
  obtain ⟨counted, folded⟩ := foldMatchTicksIntoBuckets_eq model
  have length : (model.matchedBuckets model.visibleMatches).length = model.buckets.length :=
    length_foldl_modify _ _ _ _
  have rows : model.proxyRowCount < 2 ^ 31 := counts.rowCount.trans_lt model.view.rowCount_lt
  -- Each bucket keeps its levels and bits, and counts its matches.
  have each {bucket : Nat} {held : RailBucket}
    (present : (model.matchedBuckets model.visibleMatches)[bucket]? = some held) :
      ∃ before, model.buckets[bucket]? = some before ∧ held.levels = before.levels ∧
        held.anchorSlots = before.anchorSlots ∧
        held.matchCount = UInt32.ofNat (model.visibleMatches.countP fun row =>
          model.bucketOfRow row = bucket) := by
    rw [getElem?_matchedBuckets, Option.map_eq_some_iff] at present
    obtain ⟨before, found, rfl⟩ := present
    refine ⟨before, found, rfl, rfl, ?_⟩
    show before.matchCount + _ = _
    rw [unmatched bucket before found, UInt32.zero_add]
  rw [folded]
  refine ⟨⟨counts.rowCount, ?_, ?_, ?_⟩, ?_, ?_⟩
  · intro bucket held present level
    obtain ⟨before, found, levels, -, -⟩ := each present
    rw [levels, counts.levels bucket before found, ← length]
  · intro bucket held present slot
    obtain ⟨before, found, -, slots, -⟩ := each present
    rw [slots, counts.slots bucket before found, ← length]
  · rw [counts.bits]
    exact (bitsSet_matchedBuckets model _).symm
  · intro bucket held present
    obtain ⟨before, found, -, -, count⟩ := each present
    -- The matches that are counted are visible rows, whose product fits.
    have slots : (model.visibleMatches.countP fun row => model.bucketOfRow row = bucket) =
        model.visibleMatches.countP fun row =>
          evenBucket model.proxyRowCount model.buckets.length row = bucket := by
      apply List.countP_congr
      intro row member
      obtain ⟨match_, kept, rfl⟩ := List.mem_map.mp member
      obtain ⟨nonneg, below⟩ := of_decide_eq_true (List.mem_filter.mp kept).2
      rw [bucketOfRow_eq height rows (by omega) some_]
    have counted := countP_visibleMatches stores.once counts.rowCount model.buckets.length bucket
    rw [count, slots, counted, toNat_rowsInBucket, ← length]
    simp only [stores.same]
  · rintro bucket ⟨row, inside, held⟩
    have some_ : model.matchedBuckets model.visibleMatches ≠ [] := by
      rw [← List.length_pos_iff, length, List.length_pos_iff]
      exact some_
    exact @firstProxyRowInBucket_eq { model with
      buckets := model.matchedBuckets model.visibleMatches, bucketedMatchCount :=
        counted } row bucket counts.rowCount some_
      inside held

/-- The rail without ticks for the matches. -/
def unticked (model : OverviewRailModel) : OverviewRailModel :=
  { model with
    bucketedMatchCount := 0
    buckets := model.buckets.map fun bucket => ({ bucket with matchCount := 0 } : RailBucket) }

/-- Without ticks, there are as many buckets. -/
theorem unticked_reads (model : OverviewRailModel) : SameReads model model.unticked :=
  ⟨rfl, rfl, rfl, rfl, rfl, rfl, List.length_map _⟩

/-- A bucket without its ticks. -/
theorem getElem?_unticked {held : RailBucket}
    (present : model.unticked.buckets[bucket]? = some held) :
    ∃ before, model.buckets[bucket]? = some before ∧ held = { before with matchCount := 0 } := by
  rw [unticked, List.getElem?_map, Option.map_eq_some_iff] at present
  obtain ⟨before, found, rfl⟩ := present
  exact ⟨before, found, rfl⟩

/-- The rows are counted without the ticks too. -/
theorem CountsRows.unticked (counts : model.CountsRows) : model.unticked.CountsRows := by
  have length := model.unticked_reads.height
  refine ⟨counts.rowCount, ?_, ?_, ?_⟩
  · intro bucket held present level
    obtain ⟨before, found, rfl⟩ := getElem?_unticked present
    rw [length]
    exact counts.levels bucket before found level
  · intro bucket held present slot
    obtain ⟨before, found, rfl⟩ := getElem?_unticked present
    rw [length]
    exact counts.slots bucket before found slot
  · -- The bits are those of the buckets as they were.
    show model.anchorBucketBitsSet = bitsSet (model.buckets.map _)
    rw [counts.bits, bitsSet, bitsSet, List.map_map]
    rfl

/-- `RefreshMatchTicks` changes the buckets only. -/
theorem refreshMatchTicks_reads (model : OverviewRailModel) :
    SameReads model model.refreshMatchTicks :=
  model.unticked_reads.trans (foldMatchTicksIntoBuckets_reads model.unticked)

/-- `RefreshMatchTicks` counts the matches afresh. -/
theorem CountsRows.refreshed (counts : model.CountsRows) (some_ : model.buckets ≠ [])
    (height : model.buckets.length < 2 ^ 32)
    (stores : model.StoresMatches pushed) :
    model.refreshMatchTicks.AgreesWithRows pushed := by
  have reads := model.unticked_reads
  -- Clearing the ticks keeps the number of buckets.
  have bareSome : model.unticked.buckets ≠ [] := by
    rw [← List.length_pos_iff, reads.height, List.length_pos_iff]
    exact some_
  have unmatched (bucket : Nat) (held : RailBucket) (present : model.unticked.buckets[bucket]? =
    some held) :
      held.matchCount = 0 := by
    obtain ⟨before, -, rfl⟩ := getElem?_unticked present
    rfl
  exact counts.unticked.matched bareSome (reads.height.trans_lt height) unmatched
    ⟨stores.once, stores.same, stores.rowsOwn⟩

/-- The rail after the walk over the rows. -/
def walked (model : OverviewRailModel) : OverviewRailModel :=
  model.cleared.withBuckets ((List.range model.view.rowCount).foldl
    (fun buckets row => buckets.modify (model.cleared.bucketOfRow row) (model.cleared.takeRow row))
      model.cleared.buckets)

/-- The walk changes the buckets and the number of bits only. -/
theorem walked_reads (model : OverviewRailModel) : SameReads model model.walked :=
  ⟨rfl, rfl, rfl, rfl, rfl, rfl, (length_foldl_modify _ _ _ _).trans (List.length_map _)⟩

/-- The cleared buckets have no bits. -/
theorem cleared_bits (model : OverviewRailModel) :
    model.cleared.anchorBucketBitsSet = bitsSet model.cleared.buckets := by
  show 0 = bitsSet (model.buckets.map fun _ => RailBucket.empty)
  rw [bitsSet, List.map_map]
  exact (List.sum_eq_zero fun count member =>
    by obtain ⟨_, -, rfl⟩ := List.mem_map.mp member; rfl).symm

/-- The walk of a rebuild. -/
theorem foldl_walkRow_cleared (some_ : model.buckets ≠ []) :
    (List.range model.cleared.proxyRowCount).foldl
      (walkRow !model.anchors.entries.isEmpty) model.cleared = model.walked := by
  have height := List.length_pos_iff.mpr some_
  have length : model.cleared.buckets.length = model.buckets.length := List.length_map _
  have inside (row : Nat) : model.cleared.bucketOfRow row < model.cleared.buckets.length := by
    rw [bucketOfRow, length]
    omega
  exact foldl_walkRow (List.range model.view.rowCount) model.cleared_bits inside

/-- A rebuild walks over the rows, and counts the matches. -/
theorem rebuildInternal_eq (some_ : model.buckets ≠ []) (rowsOwn : model.matchBucketCounts = []) :
    model.rebuildInternal = model.walked.foldMatchTicksIntoBuckets := by
  have height := List.length_pos_iff.mpr some_
  have length : model.cleared.buckets.length = model.buckets.length := List.length_map _
  unfold rebuildInternal
  dsimp only
  split
  · rename_i idle
    have none_ : model.view.rowCount = 0 := by
      rcases idle with none_ | none_
      · exact absurd (congrArg List.length none_) (by rw [length]; exact height.ne')
      · exact none_
    -- Without rows there is nothing to walk over, and no match to count.
    have same : model.walked = model.cleared := by
      rw [walked, none_, List.range_zero, List.foldl_nil, withBuckets, ← cleared_bits]
    rw [same, foldMatchTicksIntoBuckets, if_pos idle]
  · rw [foldl_walkRow_cleared some_]
    split
    · -- No counts are stored, so none replace those of the matches.
      obtain ⟨counted, fold⟩ := foldMatchTicksIntoBuckets_eq model.walked
      have shorter : model.walked.foldMatchTicksIntoBuckets.matchBucketCounts.length ≠
          model.walked.foldMatchTicksIntoBuckets.buckets.length := by
        rw [fold]
        show model.matchBucketCounts.length ≠
          (model.walked.matchedBuckets model.walked.visibleMatches).length
        rw [rowsOwn, matchedBuckets, length_foldl_modify, model.walked_reads.height]
        exact height.ne
      rw [applyStoredMatchBucketCounts, if_pos (.inl shorter)]
    · rfl

/-- The walk counts the rows. -/
theorem walked_counts (some_ : model.buckets ≠ []) (height : model.buckets.length < 2 ^ 32)
    (current : model.levelColumnIndex = model.computeLevelColumnIndex) :
    model.walked.CountsRows ∧
      ∀ (bucket : Nat) (held : RailBucket), model.walked.buckets[bucket]? = some held →
        held.matchCount = 0 := by
  have length : model.cleared.buckets.length = model.buckets.length := List.length_map _
  have clearedSome : model.cleared.buckets ≠ [] := by
    rw [← List.length_pos_iff, length, List.length_pos_iff]
    exact some_
  -- A bucket is what its rows add to an empty one.
  have each {bucket : Nat} {held : RailBucket} (present : model.walked.buckets[bucket]? =
    some held) :
      held = ((List.range model.view.rowCount).filter fun row =>
        evenBucket model.view.rowCount model.buckets.length row = bucket).foldl
          (fun held row => model.cleared.takeRow row held) .empty := by
    rw [walked, withBuckets, getElem?_foldl_modify, Option.map_eq_some_iff] at present
    obtain ⟨before, found, rfl⟩ := present
    obtain ⟨_, -, rfl⟩ := Option.map_eq_some_iff.mp ((List.getElem?_map).symm.trans found)
    congr 1
    apply List.filter_congr
    intro row member
    rw [bucketOfRow_eq (length.trans_lt height) model.view.rowCount_lt (List.mem_range.mp member)
      clearedSome, length]
    rfl
  refine ⟨⟨rfl, ?_, ?_, rfl⟩, ?_⟩
  · intro bucket held present level
    -- The level is counted once for each of the rows of the bucket that have it.
    have counts := (@foldl_takeRow model.cleared current
      ((List.range model.view.rowCount).filter fun row =>
      evenBucket model.view.rowCount model.buckets.length row = bucket) .empty).1 level
    rw [each present, counts, List.countP_filter, model.walked_reads.height]
    show (0 + UInt32.ofNat _).toNat = model.view.rowsInBucket model.buckets.length bucket
      model.view.rowCount fun row =>
      model.view.levelAt row = some level
    rw [UInt32.zero_add, ← toNat_rowsInBucket, RailView.rowsInBucket]
    simp only [Bool.decide_and, Bool.decide_eq_true, Bool.and_comm]
    rfl
  · intro bucket held present slot
    rw [each present, (@foldl_takeRow model.cleared current _ _).2.1, model.walked_reads.height]
    simp only [List.mem_filter, List.mem_range, decide_eq_true_eq, and_assoc]
    exact or_iff_right (Finset.notMem_empty slot)
  · intro bucket held present
    rw [each present, (@foldl_takeRow model.cleared current _ _).2.2]
    rfl

/-- A rebuild under the first Level column makes the rail agree. -/
theorem rebuildInternal_agrees (some_ : model.buckets ≠ []) (height : model.buckets.length < 2 ^ 32)
    (current : model.levelColumnIndex = model.computeLevelColumnIndex)
    (stores : model.StoresMatches pushed) :
    model.rebuildInternal.AgreesWithRows pushed ∧ SameReads model model.rebuildInternal := by
  -- Walking the rows keeps the number of buckets.
  have reads := model.walked_reads
  have walkedSome : model.walked.buckets ≠ [] := by
    rw [← List.length_pos_iff, reads.height, List.length_pos_iff]
    exact some_
  obtain ⟨counts, unmatched⟩ := walked_counts some_ height current
  rw [rebuildInternal_eq some_ stores.rowsOwn]
  exact ⟨counts.matched walkedSome (reads.height.trans_lt height) unmatched ⟨stores.once,
    stores.same, stores.rowsOwn⟩,
    reads.trans (foldMatchTicksIntoBuckets_reads model.walked)⟩

/-- Stored counts that fit replace those of the buckets. -/
theorem applyStoredMatchBucketCounts_map
    (sized : model.matchBucketCounts.length = model.buckets.length)
    (some_ : model.buckets ≠ []) :
    model.applyStoredMatchBucketCounts.buckets.map RailBucket.matchCount =
      model.matchBucketCounts := by
  unfold applyStoredMatchBucketCounts
  rw [if_neg (by simp [sized, some_])]
  show (List.zipWith _ model.buckets model.matchBucketCounts).map RailBucket.matchCount = _
  rw [List.map_zipWith, ← List.map_uncurry_zip_eq_zipWith]
  exact List.map_snd_zip sized.le

/-- Applying the stored counts changes the buckets only. -/
theorem applyStoredMatchBucketCounts_reads (model : OverviewRailModel) :
    SameReads model model.applyStoredMatchBucketCounts := by
  unfold applyStoredMatchBucketCounts
  split
  · exact ⟨rfl, rfl, rfl, rfl, rfl, rfl, rfl⟩
  · -- The stored counts are as many as the buckets, so the number stays.
    rename_i applies
    obtain ⟨sized, -⟩ := not_or.mp applies
    refine ⟨rfl, rfl, rfl, rfl, rfl, rfl, ?_⟩
    show (List.zipWith _ model.buckets model.matchBucketCounts).length = _
    rw [List.length_zipWith, not_not.mp sized, min_self]

/-- Counts that were pushed for the buckets stand after a rebuild. -/
theorem setMatchBucketCounts_stand {counts : List UInt32}
    (sized : counts.length = model.buckets.length)
    (some_ : model.buckets ≠ []) (rows : model.view.rowCount ≠ 0) (total : UInt32) :
    (model.setMatchBucketCounts counts total).rebuildInternal.buckets.map RailBucket.matchCount =
      counts := by
  have stored : SameReads { model with
      proxyRowCount := model.view.sourceRows.length, matchProxyRows := [], matchBucketCounts :=
        counts, matchBucketTotal := total }
      (model.setMatchBucketCounts counts total) := by
    rw [setMatchBucketCounts, if_neg (not_not.mpr sized)]
    exact applyStoredMatchBucketCounts_reads _
  generalize model.setMatchBucketCounts counts total = pushed at stored ⊢
  have height : pushed.buckets.length = model.buckets.length := stored.height
  have pushedSome : pushed.buckets ≠ [] := by
    rw [← List.length_pos_iff, height, List.length_pos_iff]
    exact some_
  have walked := pushed.walked_reads.trans (foldMatchTicksIntoBuckets_reads pushed.walked)
  have noRows : pushed.walked.foldMatchTicksIntoBuckets.matchProxyRows = [] :=
    walked.matchProxyRows.trans stored.matchProxyRows
  have counts_ : pushed.walked.foldMatchTicksIntoBuckets.matchBucketCounts = counts :=
    walked.matchBucketCounts.trans stored.matchBucketCounts
  have length : pushed.walked.foldMatchTicksIntoBuckets.buckets.length = model.buckets.length :=
    walked.height.trans height
  -- There are buckets and rows, so the rebuild walks to its end.
  have busy : ¬(pushed.cleared.buckets = [] ∨ pushed.cleared.proxyRowCount = 0) := by
    rintro (none_ | none_)
    · exact pushedSome (List.map_eq_nil_iff.mp none_)
    · exact rows ((congrArg RailView.rowCount stored.view).symm.trans none_)
  -- There are no rows of matches, so the stored counts are applied again.
  unfold rebuildInternal
  dsimp only
  rw [if_neg busy, foldl_walkRow_cleared pushedSome, if_pos noRows,
    applyStoredMatchBucketCounts_map, counts_]
  · rw [counts_, length, sized]
  · rw [← List.length_pos_iff, length, List.length_pos_iff]
    exact some_

end Rebuild

end OverviewRailModel

end Loglib
