import Loglib.Basic.Runs
import Loglib.App.HistogramRuns

/-! The events that the histogram follows exactly, and runs of them. -/

namespace Loglib

namespace HistogramSource

variable {source : HistogramSource} {size : HistogramBucketSize} {count : Nat}

/-- One more row. -/
theorem indexOfFirst_succ (source : HistogramSource) (size : HistogramBucketSize) (count : Nat) :
    source.indexOfFirst size (count + 1) = source.countRow
      (source.indexOfFirst size count) count := by
  rw [indexOfFirst, List.range_succ, List.foldl_append]
  rfl

/-- The index keeps its size. -/
@[simp] theorem indexOfFirst_bucketSize (source : HistogramSource) (size : HistogramBucketSize)
    (count : Nat) :
    (source.indexOfFirst size count).bucketSize = size := by
  -- Adding a row never changes the width.
  induction count with
  | zero => rfl
  | succ count ih =>
    rw [indexOfFirst_succ, countRow]
    split
    · exact ih
    · rw [HistogramBucketIndex.addRow_bucketSize, ih]

/-- The index starts at a multiple of the width. -/
theorem indexOfFirst_aligned (source : HistogramSource) (size : HistogramBucketSize) (count : Nat) :
    (source.indexOfFirst size count).Aligned := by
  -- Adding a row keeps the origin on the grid.
  induction count with
  | zero => exact fun some_ => absurd rfl some_
  | succ count ih =>
    rw [indexOfFirst_succ, countRow]
    split
    · exact ih
    · exact HistogramBucketIndex.addRow_aligned ih

/-- Every row with a timestamp has a bucket. -/
theorem indexOfFirst_covers {row : Nat} (inside : row < count) {ts : Int}
    (shown : source.timestampForRow row = some ts) :
    ((source.indexOfFirst size count).bucketOf ts).isSome := by
  induction count with
  | zero => omega
  | succ count ih =>
    rw [indexOfFirst_succ, countRow]
    rcases Nat.lt_succ_iff_lt_or_eq.mp inside with earlier | rfl
    · -- An earlier row has a bucket already, and keeps one.
      have covered := ih earlier
      split
      · exact covered
      · exact HistogramBucketIndex.bucketOf_addRow_isSome covered
    · rw [shown]
      exact HistogramBucketIndex.bucketOf_addRow_self

/-- Rows that look alike make the same index. -/
theorem indexOfFirst_congr {before after : HistogramSource}
    (alike : before.ShowsAlike after count) :
    after.indexOfFirst size count = before.indexOfFirst size count := by
  -- Row by row; a row is counted by its timestamp and its level.
  induction count with
  | zero => rfl
  | succ count ih =>
    obtain ⟨timestamp, rest⟩ := alike count (Nat.lt_succ_self count)
    rw [indexOfFirst_succ, indexOfFirst_succ, ih fun row inside => alike row (by omega), countRow,
      countRow, timestamp]
    cases shown : before.timestampForRow count with
    | none => rfl
    | some ts => rw [(rest (Option.isSome_of_eq_some shown)).1]

/-- Rows that look alike tick alike. -/
theorem ticks_congr {before after : HistogramSource} (alike : before.ShowsAlike after count)
    {row : Nat} (inside : row < count)
    (anchors : AnchorManager) (index : HistogramBucketIndex) (bucket : Nat) (slot : AnchorColor) :
    after.Ticks anchors index bucket slot row ↔ before.Ticks anchors index bucket slot row := by
  obtain ⟨timestamp, rest⟩ := alike row inside
  unfold Ticks
  rw [timestamp]
  -- A tick needs a timestamp, and with it comes the key.
  cases shown : before.timestampForRow row with
  | none => simp
  | some ts =>
    have key := (rest (Option.isSome_of_eq_some shown)).2
    unfold anchorSlotForRow
    rw [key]

/-- A row that goes before all the others finds no anchored row there that has a timestamp. -/
def TicksStay (source : HistogramSource) (anchors : AnchorManager) (size : HistogramBucketSize)
    (row : Nat) : Prop :=
  ∀ ts, source.timestampForRow row = some ts →
    (∃ earlier < row, (source.anchorSlotForRow anchors earlier).isSome ∧
      (source.timestampForRow earlier).isSome) →
    ∃ earlier < row, ∃ other, source.timestampForRow earlier = some other ∧
      other / size.width ≤ ts / size.width

end HistogramSource

namespace HistogramModel

section Appending

/-- The histogram of the first rows, but for masks that are still missing at the end. -/
structure AgreesUpTo (model : HistogramModel) (size : HistogramBucketSize)
    (count : Nat) : Prop where
  columns : model.columnsStand = true
  index : model.index = model.source.indexOfFirst size count
  sized : model.anchorSlotPerBucket.length ≤ model.index.buckets.length
  slots : ∀ bucket slot, slot ∈ maskAt model.anchorSlotPerBucket bucket ↔
    ∃ row < count, model.source.Ticks model.anchors model.index bucket slot row
  bits : model.anchorBucketBitsSet = bitsSet model.anchorSlotPerBucket

variable {model : HistogramModel} {size : HistogramBucketSize} {count : Nat}

/-- A histogram of all rows is one of the first rows, whatever source shows these alike. -/
theorem AgreesWithRows.upTo (agrees : model.AgreesWithRows) {source : HistogramSource}
    (stand : ({ model with source } : HistogramModel).columnsStand = true)
    (alike : model.source.ShowsAlike source model.source.table.rowCount) :
    ({ model with source } : HistogramModel).AgreesUpTo model.index.bucketSize
    model.source.table.rowCount := by
  refine ⟨stand, ?_, agrees.sized.le, ?_, agrees.bits⟩
  · rw [HistogramSource.indexOfFirst_congr alike]
    exact agrees.index
  · intro bucket slot
    have same : (∃ row < model.source.table.rowCount,
      source.Ticks model.anchors model.index bucket slot row) ↔
        ∃ row < model.source.table.rowCount,
          model.source.Ticks model.anchors model.index bucket slot row :=
      exists_congr fun row => and_congr_right fun inside =>
        HistogramSource.ticks_congr alike inside _ _ _ _
    rw [same]
    show slot ∈ maskAt model.anchorSlotPerBucket bucket ↔ _
    cases held : model.anchorSlotPerBucket[bucket]? with
    | some mask =>
      rw [maskAt, held]
      exact agrees.slots bucket mask held slot
    | none =>
      -- Behind the last mask there is no bucket.
      rw [maskAt, held]
      refine iff_of_false (Finset.notMem_empty slot) ?_
      rintro ⟨row, -, -, placed⟩
      obtain ⟨ts, -, inBucket⟩ := Option.bind_eq_some_iff.mp placed
      have inside := (HistogramBucketIndex.bucketOf_eq_some_iff.mp inBucket).1
      have outside := List.getElem?_eq_none_iff.mp held
      rw [agrees.sized] at outside
      omega

/-- Once the masks that are missing are added, the histogram of the first rows is that of
all rows. -/
theorem AgreesUpTo.synced (upTo : model.AgreesUpTo size model.source.table.rowCount) :
    model.syncAnchorBucketVectorSize.AgreesWithRows := by
  -- Everything but the masks is there; the masks get as many as there are buckets.
  refine ⟨?_, ?_, sync_length model, ?_, sync_bits upTo.bits⟩
  · exact upTo.columns
  · show model.index = model.source.rebuiltIndex model.index.bucketSize
    rw [upTo.index, HistogramSource.indexOfFirst_bucketSize]
    rfl
  · intro bucket mask held slot
    have mem := sync_maskAt upTo.sized bucket
    rw [maskAt, held, Option.getD_some] at mem
    rw [mem]
    exact upTo.slots bucket slot

/-- The ticks of the rows up to a count, and those of one more row. -/
theorem ticks_succ (source : HistogramSource) (anchors : AnchorManager)
    (index : HistogramBucketIndex) (bucket : Nat)
    (slot : AnchorColor) (count : Nat) :
    (∃ row < count + 1, source.Ticks anchors index bucket slot row) ↔
      (∃ row < count, source.Ticks anchors index bucket slot row) ∨
        source.Ticks anchors index bucket slot count := by
  -- The last row, or one in front of it.
  constructor
  · rintro ⟨row, inside, ticks⟩
    rcases Nat.lt_succ_iff_lt_or_eq.mp inside with earlier | rfl
    · exact .inl ⟨row, earlier, ticks⟩
    · exact .inr ticks
  · rintro (⟨row, inside, ticks⟩ | ticks)
    · exact ⟨row, by omega, ticks⟩
    · exact ⟨count, by omega, ticks⟩

/-- Counting a row leaves the ticks of the earlier rows where they are. -/
theorem ticks_addRow {source : HistogramSource} {anchors : AnchorManager} {ts : Int}
    (shown : source.timestampForRow count = some ts) (stay : source.TicksStay anchors size count)
    (level : LogLevel)
    (bucket : Nat) (slot : AnchorColor) :
    (∃ row < count, source.Ticks anchors ((source.indexOfFirst size count).addRow ts level) bucket
      slot row) ↔
      ∃ row < count, source.Ticks anchors (source.indexOfFirst size count) bucket slot row := by
  refine exists_congr fun row => and_congr_right fun inside => and_congr_right fun anchored => ?_
  cases instant : source.timestampForRow row with
  | none => rfl
  | some other =>
    -- The row is anchored and has a timestamp, so the new one does not go before all of them.
    obtain ⟨earlier, before, first, firstShown, order⟩ :=
      stay ts shown ⟨row, inside, Option.isSome_of_eq_some anchored,
        Option.isSome_of_eq_some instant⟩
    have later : first / (source.indexOfFirst size count).bucketSize.width ≤
        ts / (source.indexOfFirst size count).bucketSize.width := by
      rw [HistogramSource.indexOfFirst_bucketSize]
      exact order
    have notBefore := HistogramBucketIndex.not_before_of_le (source.indexOfFirst_aligned size count)
      (HistogramSource.indexOfFirst_covers before firstShown) later
    rw [Option.bind_some, Option.bind_some,
      HistogramBucketIndex.bucketOf_addRow_of_le (fun _ => notBefore)
      (HistogramSource.indexOfFirst_covers inside instant)]

/-- One more row. -/
theorem appendRow_upTo (upTo : model.AgreesUpTo size count)
    (stay : model.source.TicksStay model.anchors size count) :
    (appendRow (!model.anchors.entries.isEmpty) model count).AgreesUpTo size (count + 1) := by
  have stand := upTo.columns
  unfold appendRow
  rw [timeStampForRow_eq stand]
  cases shown : model.source.timestampForRow count with
  | none =>
    refine ⟨stand, ?_, upTo.sized, ?_, upTo.bits⟩
    · rw [HistogramSource.indexOfFirst_succ, HistogramSource.countRow, shown]
      exact upTo.index
    · intro bucket slot
      rw [ticks_succ, upTo.slots, HistogramSource.Ticks, shown, Option.bind_none]
      simp
  | some ts =>
    dsimp only
    generalize counted_ : ({ model with index := model.index.addRow ts (model.levelForRow count) } :
      HistogramModel) = counted
    have inputs : SameInputs model counted := counted_ ▸ ⟨rfl, rfl, rfl, rfl⟩
    have index : counted.index = model.source.indexOfFirst size (count + 1) := by
      rw [HistogramSource.indexOfFirst_succ, HistogramSource.countRow, shown, ← upTo.index,
        ← levelForRow_eq stand, ← counted_]
    have masks : counted.anchorSlotPerBucket = model.anchorSlotPerBucket := counted_ ▸ rfl
    have sized : counted.anchorSlotPerBucket.length ≤ counted.index.buckets.length := by
      rw [masks, ← counted_]
      apply upTo.sized.trans
      show model.index.buckets.length ≤
        (model.index.addRow ts (model.levelForRow count)).buckets.length
      cases model.index.addRow_placed ts (model.levelForRow count) with
      | first empty => simp [empty]
      | front _ before _ length => omega
      | back _ _ _ length => omega
    have bits : counted.anchorBucketBitsSet = bitsSet counted.anchorSlotPerBucket := by
      rw [masks, ← upTo.bits, ← counted_]
    -- The earlier rows tick where they did, under the longer index too.
    have earlier : ∀ bucket slot, slot ∈ maskAt counted.anchorSlotPerBucket bucket ↔
        ∃ row < count, model.source.Ticks model.anchors counted.index bucket slot row := by
      intro bucket slot
      rw [masks, upTo.slots, upTo.index, index, HistogramSource.indexOfFirst_succ,
        HistogramSource.countRow, shown]
      exact (ticks_addRow shown stay _ bucket slot).symm
    have unticked : (∀ bucket slot,
      ¬model.source.Ticks model.anchors counted.index bucket slot count) →
        counted.AgreesUpTo size (count + 1) := by
      intro none_
      refine ⟨by rw [inputs.columnsStand]; exact stand, by rw [inputs.source]; exact index, sized, ?_, bits⟩
      intro bucket slot
      rw [earlier, inputs.source, inputs.anchors, ticks_succ]
      simp [none_]
    split
    · rename_i untracked
      -- Without anchors there is nothing to tick.
      apply unticked
      rintro bucket slot ⟨anchored, -⟩
      unfold HistogramSource.anchorSlotForRow at anchored
      rw [if_pos (by simpa using untracked)] at anchored
      exact Option.some_ne_none slot anchored.symm
    · split
      · rename_i slot bucket anchored placed
        have placed : counted.index.bucketOf ts = some bucket := counted_ ▸ placed
        obtain ⟨later, sameIndex, length⟩ :=
          setAnchorBit_inputs counted.syncAnchorBucketVectorSize bucket slot
        have syncedLength := sync_length counted
        have inside : bucket < counted.syncAnchorBucketVectorSize.anchorSlotPerBucket.length := by
          rw [syncedLength]
          exact (HistogramBucketIndex.bucketOf_eq_some_iff.mp placed).1
        have all := inputs.trans ((sync_inputs counted).trans later)
        refine ⟨by rw [all.columnsStand]; exact stand, ?_, ?_, ?_, setAnchorBit_bits (sync_bits bits)⟩
        · rw [sameIndex, all.source]
          exact index
        · rw [length, syncedLength, sameIndex]
          exact le_refl _
        · intro other asked
          rw [mem_setAnchorBit inside, sync_maskAt sized, earlier, all.source,
            all.anchors, sameIndex]
          show _ ↔ ∃ row < count + 1, model.source.Ticks model.anchors counted.index other asked row
          rw [ticks_succ]
          refine or_congr_right ?_
          rw [HistogramSource.Ticks, anchored, shown, Option.bind_some, placed, Option.some.injEq,
            Option.some.injEq,
            and_comm, eq_comm, @eq_comm _ other]
      · rename_i missing
        apply unticked
        rintro bucket slot ⟨anchored, placed⟩
        rw [shown, Option.bind_some, ← counted_] at placed
        exact missing slot bucket anchored placed

/-- All rows from a count on. -/
theorem foldl_appendRow_upTo (more : Nat) :
    ∀ (model : HistogramModel) (count : Nat), model.AgreesUpTo size count →
      (∀ row, count ≤ row → row < count + more → model.source.TicksStay model.anchors size row) →
      ((List.range' count more).foldl (appendRow (!model.anchors.entries.isEmpty)) model).AgreesUpTo
        size (count + more) := by
  -- The rows one after the other, with the model after the rows before.
  induction more with
  | zero => exact fun model count upTo _ => upTo
  | succ more ih =>
    intro model count upTo stay
    obtain ⟨inputs, -⟩ := appendRow_spec (!model.anchors.entries.isEmpty) model count
    have next := appendRow_upTo upTo (stay count (le_refl _) (by omega))
    have rest := ih _ (count + 1) next fun row from_ below => by
      rw [inputs.source, inputs.anchors]
      exact stay row (by omega) (by omega)
    rw [inputs.anchors] at rest
    rw [List.range'_succ, List.foldl_cons, ← Nat.add_assoc, Nat.add_right_comm]
    exact rest

end Appending

section Anchors

variable {model : HistogramModel}

/-- With a mask for each bucket, a sync changes nothing. -/
theorem sync_of_sized (sized : model.anchorSlotPerBucket.length = model.index.buckets.length) :
    model.syncAnchorBucketVectorSize = model := by
  unfold syncAnchorBucketVectorSize
  dsimp only
  rw [← sized, List.take_length, List.drop_length, Nat.sub_self]
  simp

/-- The colours of a bucket are those of the keys in it. -/
theorem mem_colorsInBucket {bucket : Nat} {slot : AnchorColor} :
    slot ∈ model.colorsInBucket bucket ↔
      ∃ key, model.bucketOfKey key = some bucket ∧ model.anchors.colorFor key = some slot := by
  simp only [colorsInBucket, List.mem_toFinset, List.mem_map, List.mem_filter, decide_eq_true_eq,
    Prod.exists]
  -- The anchors are listed once each, under their keys.
  constructor
  · rintro ⟨key, value, ⟨listed, placed⟩, rfl⟩
    refine ⟨key, placed, ?_⟩
    rw [AnchorManager.colorFor, AnchorManager.mem_entriesIncludingRuntimeOnly.mp listed,
      Option.map_some]
  · rintro ⟨key, placed, colored⟩
    obtain ⟨value, found, rfl⟩ := Option.map_eq_some_iff.mp colored
    exact ⟨key, value, ⟨AnchorManager.mem_entriesIncludingRuntimeOnly.mpr found, placed⟩, rfl⟩

/-- What the histogram needs of a change under one key: in the bucket of the key's first row the
first rows of all keys tick as all rows do, and the other buckets keep the colours that tick in
them. Without such a bucket all masks are rebuilt. -/
def FollowsKey (model : HistogramModel) (anchors : AnchorManager) (key : AnchorKey) : Prop :=
  match model.bucketOfKey key with
  | none => ∀ bucket, model.source.FirstRowsTick anchors model.index bucket
  | some bucket =>
    model.source.FirstRowsTick anchors model.index bucket ∧ ∀ other ≠ bucket, ∀ slot,
      (∃ row < model.source.table.rowCount, model.source.Ticks anchors model.index other slot row) ↔
        ∃ row < model.source.table.rowCount,
          model.source.Ticks model.anchors model.index other slot row

/-- A change under one key is followed by the bucket of the key, or by all of them. -/
theorem onAnchorChanged_agrees (agrees : model.AgreesWithRows) {anchors : AnchorManager}
    {key : AnchorKey}
    (follows : model.FollowsKey anchors key) :
    (onAnchorChanged { model with anchors } key).AgreesWithRows := by
  have still : ({ model with anchors } : HistogramModel).syncAnchorBucketVectorSize =
      { model with anchors } :=
    sync_of_sized agrees.sized
  have key_ : ({ model with anchors } : HistogramModel).bucketOfKey key = model.bucketOfKey key :=
    rfl
  unfold onAnchorChanged
  dsimp only
  rw [still, key_]
  unfold FollowsKey at follows
  -- The key is of no row with a bucket, or it is of the bucket that is ticked anew.
  cases placed : model.bucketOfKey key with
  | none =>
    rw [placed] at follows
    exact @rebuildAnchorBuckets_agrees { model with anchors } agrees.columns agrees.index follows
  | some bucket =>
    rw [placed] at follows
    obtain ⟨firsts, others⟩ := follows
    -- A bucket that a key has is one of the index.
    have inside : bucket < model.anchorSlotPerBucket.length := by
      obtain ⟨ts, -, inBucket⟩ := Option.bind_eq_some_iff.mp placed
      rw [agrees.sized]
      exact (HistogramBucketIndex.bucketOf_eq_some_iff.mp inBucket).1
    obtain ⟨previous, held⟩ : ∃ previous, model.anchorSlotPerBucket[bucket]? = some previous :=
      ⟨_, List.getElem?_eq_getElem inside⟩
    dsimp only
    rw [held]
    dsimp only
    refine ⟨agrees.columns, agrees.index, ?_, ?_, ?_⟩
    · rw [List.length_set]
      exact agrees.sized
    · -- The bucket of the key shows the colours of its rows, every other one what it showed.
      intro other mask found slot
      by_cases same : other = bucket
      · subst same
        rw [List.getElem?_set_self inside] at found
        rw [← Option.some.inj found, mem_colorsInBucket]
        exact (@ticks_iff_key { model with anchors } agrees.columns other firsts slot).symm
      · rw [List.getElem?_set_ne (Ne.symm same)] at found
        rw [agrees.slots other mask found slot]
        exact (others other same slot).symm
    · -- The count loses the bits of the old mask and gains those of the new one.
      have more := bitsSet_set held
        (({ model with anchors } : HistogramModel).colorsInBucket bucket)
      have less := bitsSet_set held ∅
      have counted := agrees.bits
      rw [Finset.card_empty] at less
      show model.anchorBucketBitsSet - previous.card +
        (({ model with anchors } : HistogramModel).colorsInBucket bucket).card =
        bitsSet (model.anchorSlotPerBucket.set bucket
          (({ model with anchors } : HistogramModel).colorsInBucket bucket))
      omega

end Anchors

/-- The bucket size that is set. -/
theorem bucketSize_setBucketSize (index : HistogramBucketIndex) (size : HistogramBucketSize) :
    (index.setBucketSize size).bucketSize = size := by
  unfold HistogramBucketIndex.setBucketSize
  split
  · rename_i same
    exact same.symm
  · rfl

/-- Where the bucket size that fits is another one, the histogram is rebuilt with it. -/
theorem applyAutoBucketSize_cases (model : HistogramModel) :
    model.applyAutoBucketSize = model ∨ ∃ size, size ≠ model.index.bucketSize ∧
      model.applyAutoBucketSize = ({ model with index := model.index.setBucketSize size } :
        HistogramModel).rebuild := by
  unfold applyAutoBucketSize
  -- A width that stays leaves everything as it is.
  split
  · exact .inl rfl
  · split
    · exact .inl rfl
    · dsimp only
      split
      · exact .inl rfl
      · rename_i other
        exact .inr ⟨_, other, rfl⟩

/-- What the histogram needs of an event. Where it is rebuilt, the first rows of the
anchored keys tick as all rows do, at the bucket size that it then has; where it is not,
the source keeps its promises about the rows that stay, and a row that goes before all
others finds no anchored one there. -/
def Follows (model : HistogramModel) (event : HistogramEvent) : Prop :=
  let Rebuilds (source : HistogramSource) : Prop :=
    ∀ bucket, source.FirstRowsTick model.anchors
      (source.rebuiltIndex (model.step event).index.bucketSize) bucket
  match event with
  | .rowsInserted source first last =>
    -- The rows are appended at the end, and what the rows before show stays.
    if ({ model with source } : HistogramModel).columnsStand then
      first = model.source.table.rowCount ∧ first ≤ last ∧ last + 1 = source.table.rowCount ∧
        model.source.ShowsAlike source first ∧
        ∀ row, first ≤ row → row ≤ last → source.TicksStay model.anchors model.index.bucketSize row
    else Rebuilds source
  | .rowsRemoved source =>
    -- Rows removed in front make the buckets be built again.
    ({ model with source } : HistogramModel).columnsStand = true ∧ Rebuilds source
  | .columnsMoved source | .enumColumnsChanged source =>
    if ({ model with source } : HistogramModel).columnsStand then
      source.table.rowCount = model.source.table.rowCount ∧
        model.source.ShowsAlike source source.table.rowCount
    else Rebuilds source
  | .modelReset source => Rebuilds source
  | .unfollowed source =>
    ({ model with source } : HistogramModel).columnsStand = true ∧
      source.table.rowCount = model.source.table.rowCount ∧
        model.source.ShowsAlike source source.table.rowCount
  -- The width decides whether the buckets are built again.
  | .setBucketSize _ | .resetBucketSizeToAuto =>
    (model.step event).index.bucketSize ≠ model.index.bucketSize → Rebuilds model.source
  | .changeAnchors op =>
    match (model.anchors.apply op).2 with
    | none => True
    | some (.anchorChanged key) => model.FollowsKey (model.anchors.apply op).1 key
    | some .anchorsReset =>
      ∀ bucket, model.source.FirstRowsTick (model.anchors.apply op).1 model.index bucket

variable {model : HistogramModel}

/-- A rebuild of columns that stand, and the bucket size that fits. -/
theorem rebuild_fitted_agrees (stand : model.columnsStand = true)
    (firsts : ∀ bucket, model.source.FirstRowsTick model.anchors
    (model.source.rebuiltIndex model.rebuild.applyAutoBucketSize.index.bucketSize) bucket) :
    model.rebuild.applyAutoBucketSize.AgreesWithRows := by
  obtain ⟨inputs, size⟩ := rebuild_inputs stand
  rcases model.rebuild.applyAutoBucketSize_cases with same | ⟨fitting, -, same⟩
  · rw [same, size] at firsts
    rw [same]
    exact rebuild_agrees stand firsts
  · -- The second rebuild counts the same rows, with the size that fits.
    have again : ({ model.rebuild with index := model.rebuild.index.setBucketSize fitting } :
        HistogramModel).columnsStand = true := by
      rw [← stand, ← inputs.columnsStand]
      rfl
    rw [same, (rebuild_inputs again).2] at firsts
    rw [same]
    refine rebuild_agrees again ?_
    show ∀ bucket, model.rebuild.source.FirstRowsTick model.rebuild.anchors _ bucket
    rw [inputs.source, inputs.anchors]
    exact firsts

/-- Rows that look alike leave the histogram as it is. -/
theorem AgreesWithRows.of_alike (agrees : model.AgreesWithRows) {source : HistogramSource}
    (stand : ({ model with source } : HistogramModel).columnsStand = true)
    (count : source.table.rowCount = model.source.table.rowCount)
    (alike : model.source.ShowsAlike source source.table.rowCount) :
    ({ model with source } : HistogramModel).AgreesWithRows := by
  rw [count] at alike
  have upTo := agrees.upTo stand alike
  rw [← count] at upTo
  have synced := AgreesUpTo.synced upTo
  rwa [@sync_of_sized { model with source } agrees.sized] at synced

/-- Rows at the end are followed one by one. -/
theorem onRowsInserted_agrees (agrees : model.AgreesWithRows) {source : HistogramSource}
    {first last : Nat}
    (follows : model.Follows (.rowsInserted source first last)) :
    (onRowsInserted { model with source } first last).AgreesWithRows := by
  unfold Follows step onRowsInserted at follows
  unfold onRowsInserted
  cases stand : ({ model with source } : HistogramModel).columnsStand with
  | false =>
    simp only [stand, if_true, Bool.false_eq_true, if_false] at follows ⊢
    exact @rebuild_fitted_agrees (refreshColumns { model with source })
      (refreshColumns_stand _) follows
  | true =>
    simp only [stand, if_true] at follows
    obtain ⟨rfl, ordered, whole, alike, stay⟩ := follows
    rw [if_neg (show ¬(true = false) by decide)]
    have upTo := foldl_appendRow_upTo (source.table.rowCount - model.source.table.rowCount) _ _
      (agrees.upTo stand alike) fun row from_ below => stay row from_ (by omega)
    have all : model.source.table.rowCount + (source.table.rowCount - model.source.table.rowCount) =
        source.table.rowCount := by omega
    obtain ⟨inputs, -⟩ := foldl_appendRow (!model.anchors.entries.isEmpty)
      (List.range' model.source.table.rowCount
        (source.table.rowCount - model.source.table.rowCount))
      { model with source } stand
    have filled := AgreesUpTo.synced (by rw [inputs.source]; rw [all] at upTo; exact upTo)
    split
    · rename_i absent
      -- Without a time column no row is counted.
      have idle : ∀ row, appendRow (!model.anchors.entries.isEmpty) { model with source } row =
          { model with source } := by
        intro row
        unfold appendRow
        rw [timeStampForRow_eq stand, timestampForRow_of_none stand absent]
      rwa [List.foldl_fixed' idle, @sync_of_sized { model with source } agrees.sized] at filled
    · rename_i present
      have range : ({ model with source } : HistogramModel).appendRange
        model.source.table.rowCount last =
          ((List.range' model.source.table.rowCount
            (min (last + 1) source.table.rowCount - model.source.table.rowCount)).foldl
              (appendRow !model.anchors.entries.isEmpty)
                { model with source }).syncAnchorBucketVectorSize := if_neg present
      rw [range, whole, min_self]
      exact filled

/-- An event that the histogram follows leaves it in agreement with the rows. -/
theorem step_agrees (agrees : model.AgreesWithRows) {event : HistogramEvent}
    (follows : model.Follows event) :
    (model.step event).AgreesWithRows := by
  cases event with
  -- Rows behind the others are counted and ticked.
  | rowsInserted source first last => exact onRowsInserted_agrees agrees follows
  -- Rows have gone, so everything is counted anew.
  | rowsRemoved source =>
    obtain ⟨stand, firsts⟩ := follows
    unfold step onRowsRemoved at firsts
    dsimp only at firsts
    rw [(@rebuild_inputs { model with source } stand).2] at firsts
    exact @rebuild_agrees { model with source } stand firsts
  -- A move that leaves the columns in place changes nothing that is counted.
  | columnsMoved source =>
    unfold Follows step onColumnsMoved at follows
    unfold step onColumnsMoved
    dsimp only at follows ⊢
    split
    · rename_i stand
      rw [if_pos stand] at follows
      exact agrees.of_alike stand follows.1 follows.2
    · rename_i moved
      rw [if_neg moved, if_neg moved] at follows
      exact @rebuild_fitted_agrees (refreshColumns { model with source })
        (refreshColumns_stand _) follows
  | enumColumnsChanged source =>
    unfold Follows step onEnumColumnsChanged at follows
    unfold step onEnumColumnsChanged
    dsimp only at follows ⊢
    -- The columns still stand; else they are looked up again and everything is counted anew.
    split
    · rename_i stand
      rw [if_pos stand] at follows
      exact agrees.of_alike stand follows.1 follows.2
    · rename_i changed
      rw [if_neg changed, if_neg changed, (rebuild_inputs (refreshColumns_stand _)).2] at follows
      exact @rebuild_agrees (refreshColumns { model with source }) (refreshColumns_stand _) follows
  | modelReset source =>
    exact @rebuild_fitted_agrees
      { refreshColumns { model with source } with bucketSizePinned := false }
      (refreshColumns_stand { model with source }) follows
  -- Rows that nobody has announced change neither counts nor ticks.
  | unfollowed source => exact agrees.of_alike follows.1 follows.2.1 follows.2.2
  -- The size that is there already is kept without a rebuild.
  | setBucketSize size =>
    unfold Follows step setBucketSize at follows
    unfold step setBucketSize
    dsimp only at follows ⊢
    split
    · exact ⟨agrees.columns, agrees.index, agrees.sized, agrees.slots, agrees.bits⟩
    · rename_i other
      have stand : ({ model with
        bucketSizePinned := true
        index := model.index.setBucketSize size } : HistogramModel).columnsStand =
          true := agrees.columns
      have size_ := bucketSize_setBucketSize model.index size
      rw [if_neg other, (rebuild_inputs stand).2] at follows
      exact rebuild_agrees stand (follows fun same => other (same.symm.trans size_))
  -- Going back to the automatic size counts anew only if another size fits.
  | resetBucketSizeToAuto =>
    have unpinned : ({ model with bucketSizePinned := false } : HistogramModel).AgreesWithRows :=
      ⟨agrees.columns, agrees.index, agrees.sized, agrees.slots, agrees.bits⟩
    unfold Follows step resetBucketSizeToAuto at follows
    unfold step resetBucketSizeToAuto
    dsimp only at follows ⊢
    rcases applyAutoBucketSize_cases { model with bucketSizePinned := false } with
      same | ⟨fitting, other, same⟩
    · rwa [same]
    · have stand : ({ model with
        bucketSizePinned := false
        index := model.index.setBucketSize fitting } :
          HistogramModel).columnsStand = true := agrees.columns
      have size_ := bucketSize_setBucketSize model.index fitting
      rw [same, (rebuild_inputs stand).2] at follows
      rw [same]
      exact rebuild_agrees stand (follows fun same => other (size_.symm.trans same))
  -- The manager says which anchors have changed: none, the one under a key, or all of them.
  | changeAnchors op =>
    have announces := model.anchors.apply_announces op
    unfold Follows at follows
    unfold step
    dsimp only at follows ⊢
    generalize model.anchors.apply op = changed at announces follows ⊢
    cases announces with
    | nothing => exact agrees
    | one anchors key others => exact onAnchorChanged_agrees agrees follows
    | all anchors =>
      exact @rebuildAnchorBuckets_agrees { model with anchors } agrees.columns agrees.index follows

/-- In a run of events that the histogram follows, its index is the rebuilt one and its masks hold
the colours of the anchored rows, after each event. -/
theorem run_agreesWithRows {source : HistogramSource} {anchors : AnchorManager}
    (firsts : ∀ bucket, source.FirstRowsTick anchors
    (source.rebuiltIndex (ofSources source anchors).index.bucketSize) bucket)
    {events : List HistogramEvent}
    (followed : FollowedRun step Follows (ofSources source anchors) events) (steps : Nat) :
    ((ofSources source anchors).run (events.take steps)).AgreesWithRows := by
  -- The histogram starts in agreement, and every event that it follows leaves it so.
  have start : (ofSources source anchors).AgreesWithRows :=
    @rebuild_fitted_agrees (refreshColumns ⟨source, anchors, .ofSize .oneMinute, none, none,
      false, [], 0⟩)
      (refreshColumns_stand _) firsts
  exact (followed.take steps).invariant (fun _ _ agrees follows => step_agrees agrees follows) start

/-- Where each anchored key is the key of one row only, the first rows of the keys tick as
all rows do. -/
theorem firstRowsTick_of_once {source : HistogramSource} {anchors : AnchorManager}
    (once : ∀ first second key, (anchors.find key).isSome →
    source.anchorKeyForRow first = some key →
      source.anchorKeyForRow second = some key → first = second)
    (index : HistogramBucketIndex) (bucket : Nat) : source.FirstRowsTick anchors index bucket := by
  rintro slot row ⟨shown, placed⟩
  obtain ⟨key, held, colored⟩ := anchorSlotForRow_eq_some_iff.mp shown
  obtain ⟨value, anchored, -⟩ := Option.map_eq_some_iff.mp colored
  -- The row that is looked up by the key is the row itself.
  cases located : source.sourceRowForAnchorKey key with
  | none =>
    have missed := List.find?_eq_none.mp located row (List.mem_range.mpr (row_lt_of_key held))
    simp [held] at missed
  | some first =>
    obtain rfl := once first row key (Option.isSome_of_eq_some anchored)
      (key_of_sourceRow located) held
    exact ⟨key, first, located, colored, placed⟩

section Misplaced

/-- A table with one time column, whose rows the parser has given timestamps. -/
def timedTable (instants : List Int64) : LogTable :=
  (LogTable.run (fun _ _ => none) (.initial ⟨[{
      header := bytes "t", keys := [bytes "t"], printFormat := defaultPrintFormat, type :=
        .time, parseFormats := [],
      levelMapping := [], autoDetect := false }], ⟨-1, false⟩⟩)
    [.beginStreaming (some (.stream .empty)),
      .appendBatch ⟨instants.mapIdx fun row instant => .ofField 0 (row + 1) 0 (.timestamp instant),
      [], [bytes "t"], []⟩]).getD
    (.initial ⟨[], ⟨-1, false⟩⟩)

/-- The table of one stream, without a file. -/
def timedSource (instants : List Int64) : HistogramSource := ⟨timedTable instants, fun _ => []⟩

/-- The anchor of the first row of a stream. -/
def firstRowAnchor : AnchorOp := .setAnchor ⟨[], 1⟩ 0

/-- A row one second after an anchored one is followed. -/
theorem laterRow_agrees :
    ((ofSources (timedSource [0]) .empty).run
      ([.changeAnchors firstRowAnchor, .rowsInserted (timedSource [0, 1000000]) 1 1].take
        2)).AgreesWithRows := by
  have unanchored : ∀ bucket, (timedSource [0]).FirstRowsTick .empty
      ((timedSource [0]).rebuiltIndex (ofSources (timedSource [0]) .empty).index.bucketSize)
        bucket :=
    firstRowsTick_of_once (fun _ _ _ anchored => by cases anchored) _
  have oneRow : (ofSources (timedSource [0]) .empty).source.table.rowCount = 1 := by decide
  have followed : FollowedRun step Follows (ofSources (timedSource [0]) .empty)
      [.changeAnchors firstRowAnchor, .rowsInserted (timedSource [0, 1000000]) 1 1] := by
    refine ⟨?_, ⟨rfl, le_refl 1, rfl, ?_, ?_⟩, trivial⟩
    · -- The key of the anchor is that of the only row, which lies in the only bucket.
      refine ⟨firstRowsTick_of_once (fun first second key _ firstHeld secondHeld => ?_) _ _,
        fun other elsewhere slot => ?_⟩
      · have below := row_lt_of_key firstHeld
        have belowToo := row_lt_of_key secondHeld
        omega
      · refine iff_of_false ?_ ?_
        · rintro ⟨row, inside, -, placed⟩
          obtain rfl : row = 0 := by omega
          exact elsewhere (Option.some.inj
            ((show _ = some 0 from by decide).symm.trans placed)).symm
        · rintro ⟨row, -, shown, -⟩
          cases shown
    · intro row inside
      interval_cases row
      exact ⟨by decide, fun _ => ⟨by decide, by decide⟩⟩
    · intro row from_ below ts shown _
      obtain rfl : row = 1 := by omega
      -- The first row lies in an earlier bucket.
      have instant : (timedSource [0, 1000000]).timestampForRow 1 = some 1000000 := by decide
      rw [instant] at shown
      obtain rfl := Option.some.inj shown
      exact ⟨0, by omega, 0, by decide, by decide⟩
  exact run_agreesWithRows unanchored followed 2

/-- A row one second before an anchored one moves the bucket of the anchored row, but not
its tick. -/
theorem earlierRow_misplacesTick :
    ¬∀ earlier later : List Int64,
      ((ofSources (timedSource earlier) .empty).run [.changeAnchors firstRowAnchor,
        .rowsInserted (timedSource (earlier ++ later)) earlier.length
          ((earlier ++ later).length - 1)]).AgreesWithRows := by
  intro claim
  have agrees := claim [1000000] [0]
  have ticked := (agrees.slots 0 {0} (by decide) 0).mp (by decide)
  obtain ⟨row, inside, anchored, placed⟩ := ticked
  have count : (timedSource [1000000, 0]).table.rowCount = 2 := by decide
  have inside : row < 2 := count ▸ inside
  -- The anchored row lies in the second bucket now, and the other row has no anchor.
  interval_cases row
  · revert placed
    decide
  · revert anchored
    decide

end Misplaced

end HistogramModel

end Loglib
