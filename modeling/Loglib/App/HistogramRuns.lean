import Loglib.App.HistogramModel

/-! When the histogram agrees with the rows of its source, and how each event keeps it so. -/

namespace Loglib

namespace HistogramSource

/-- The timestamp of a row in the first time column. -/
def timestampForRow (source : HistogramSource) (row : Nat) : Option Int :=
  source.table.configuration.firstTimeColumnIndex.bind fun column =>
    LogModel.timestampAt source.table column row

/-- The level of a row in the first level column. -/
def levelForRow (source : HistogramSource) (row : Nat) : LogLevel :=
  (source.table.configuration.firstLevelColumnIndex.bind fun column =>
    source.table.getLevelForRow row column).getD .unknown

/-- Count a row that has a timestamp. -/
def countRow (source : HistogramSource) (index : HistogramBucketIndex) (row : Nat) :
    HistogramBucketIndex :=
  match source.timestampForRow row with
  | none => index
  | some ts => index.addRow ts (source.levelForRow row)

/-- The index of the first rows. -/
def indexOfFirst (source : HistogramSource) (size : HistogramBucketSize) (count : Nat) :
    HistogramBucketIndex :=
  (List.range count).foldl source.countRow (.ofSize size)

/-- The index that is rebuilt from all rows. -/
def rebuiltIndex (source : HistogramSource) (size : HistogramBucketSize) : HistogramBucketIndex :=
  source.indexOfFirst size source.table.rowCount

/-- The row is anchored with a colour, and its timestamp lies in the bucket. -/
def Ticks (source : HistogramSource) (anchors : AnchorManager) (index : HistogramBucketIndex)
    (bucket : Nat)
    (slot : AnchorColor) (row : Nat) : Prop :=
  source.anchorSlotForRow anchors row = some slot ∧
    (source.timestampForRow row).bind index.bucketOf = some bucket

/-- Each colour of an anchored row in the bucket is the colour of a key whose first row
lies there. -/
def FirstRowsTick (source : HistogramSource) (anchors : AnchorManager)
    (index : HistogramBucketIndex) (bucket : Nat) : Prop :=
  ∀ slot row, source.Ticks anchors index bucket slot row →
    ∃ key first, source.sourceRowForAnchorKey key = some first ∧
    anchors.colorFor key = some slot ∧ (source.timestampForRow first).bind index.bucketOf =
      some bucket

/-- The first rows are the rows they were: the same timestamps, and with a timestamp the
same level and key. -/
def ShowsAlike (before after : HistogramSource) (count : Nat) : Prop :=
  ∀ row < count, after.timestampForRow row = before.timestampForRow row ∧
    ((before.timestampForRow row).isSome → after.levelForRow row = before.levelForRow row ∧
      after.anchorKeyForRow row = before.anchorKeyForRow row)

end HistogramSource

namespace HistogramModel

/-- The number of bits that are set. -/
def bitsSet (masks : List AnchorSlotMask) : Nat := (masks.map Finset.card).sum

/-- The histogram is the one of the rows: its index is the rebuilt one, and each bucket has a mask,
with the colours of the anchored rows in it. -/
structure AgreesWithRows (model : HistogramModel) : Prop where
  columns : model.columnsStand = true
  index : model.index = model.source.rebuiltIndex model.index.bucketSize
  sized : model.anchorSlotPerBucket.length = model.index.buckets.length
  slots : ∀ bucket mask, model.anchorSlotPerBucket[bucket]? = some mask → ∀ slot,
    slot ∈ mask ↔ ∃ row < model.source.table.rowCount,
    model.source.Ticks model.anchors model.index bucket slot row
  bits : model.anchorBucketBitsSet = bitsSet model.anchorSlotPerBucket

/-- Only the index and the masks differ. -/
structure SameInputs (before after : HistogramModel) : Prop where
  source : after.source = before.source
  anchors : after.anchors = before.anchors
  time : after.timeColumnIndex = before.timeColumnIndex
  level : after.levelColumnIndex = before.levelColumnIndex

namespace SameInputs

/-- Nothing differs. -/
@[refl] theorem refl (model : HistogramModel) : SameInputs model model := ⟨rfl, rfl, rfl, rfl⟩

/-- One change after another. -/
theorem trans {first second third : HistogramModel} (left : SameInputs first second)
    (right : SameInputs second third) :
    SameInputs first third :=
  ⟨right.source.trans left.source, right.anchors.trans left.anchors, right.time.trans left.time,
    right.level.trans left.level⟩

variable {before after : HistogramModel}

/-- The cached columns stand as before. -/
theorem columnsStand (same : SameInputs before after) :
    after.columnsStand = before.columnsStand := by
  unfold HistogramModel.columnsStand
  rw [same.source, same.time, same.level]

/-- Timestamps are read as before. -/
theorem timeStampForRow (same : SameInputs before after) :
    after.timeStampForRow = before.timeStampForRow := by
  funext row
  unfold HistogramModel.timeStampForRow
  rw [same.source, same.time]

/-- A key is found in the same bucket, if the index is the same too. -/
theorem bucketOfKey (same : SameInputs before after) (index : after.index = before.index)
    (key : AnchorKey) :
    after.bucketOfKey key = before.bucketOfKey key := by
  unfold HistogramModel.bucketOfKey
  rw [same.source, same.timeStampForRow, index]

end SameInputs

section Columns

variable {model : HistogramModel}

/-- The cached columns are the first ones of their kinds. -/
theorem columnsStand_iff : model.columnsStand = true ↔
    model.source.table.configuration.firstTimeColumnIndex = model.timeColumnIndex ∧
      model.source.table.configuration.firstLevelColumnIndex = model.levelColumnIndex := by
  unfold columnsStand
  exact decide_eq_true_iff

/-- Refreshed columns stand. -/
theorem refreshColumns_stand (model : HistogramModel) : model.refreshColumns.columnsStand = true :=
  columnsStand_iff.mpr ⟨rfl, rfl⟩

/-- With columns that stand, the model reads the first time column. -/
theorem timeStampForRow_eq (stand : model.columnsStand = true) (row : Nat) :
    model.timeStampForRow row = model.source.timestampForRow row := by
  unfold timeStampForRow HistogramSource.timestampForRow
  rw [(columnsStand_iff.mp stand).1]

/-- With columns that stand, the model reads the first level column. -/
theorem levelForRow_eq (stand : model.columnsStand = true) (row : Nat) :
    model.levelForRow row = model.source.levelForRow row := by
  unfold levelForRow HistogramSource.levelForRow
  rw [(columnsStand_iff.mp stand).2]
  cases model.levelColumnIndex <;> rfl

/-- Without a time column no row has a timestamp. -/
theorem timestampForRow_of_none (stand : model.columnsStand = true)
    (absent : model.timeColumnIndex.isNone) (row : Nat) :
    model.source.timestampForRow row = none := by
  unfold HistogramSource.timestampForRow
  rw [(columnsStand_iff.mp stand).1, Option.isNone_iff_eq_none.mp absent, Option.bind_none]

end Columns

section Masks

variable {model : HistogramModel} {bucket : Nat} {slot : AnchorColor}

/-- A mask that is not there has no bits. -/
def maskAt (masks : List AnchorSlotMask) (bucket : Nat) : AnchorSlotMask := masks[bucket]?.getD ∅

/-- Replacing a mask replaces its bits. -/
theorem bitsSet_set {masks : List AnchorSlotMask} {previous : AnchorSlotMask}
    (held : masks[bucket]? = some previous)
    (mask : AnchorSlotMask) :
    bitsSet (masks.set bucket mask) + previous.card = bitsSet masks + mask.card := by
  -- Only the bucket that is set counts differently.
  induction masks generalizing bucket with
  | nil => simp at held
  | cons head rest ih =>
    cases bucket with
    | zero =>
      obtain rfl : head = previous := by simpa using held
      simp only [bitsSet, List.set_cons_zero, List.map_cons, List.sum_cons]
      omega
    | succ bucket =>
      have later := @ih bucket (by simpa using held)
      simp only [bitsSet, List.set_cons_succ, List.map_cons, List.sum_cons] at later ⊢
      omega

/-- The bits of the masks up to a bucket, and those behind it. -/
theorem bitsSet_take_drop (masks : List AnchorSlotMask) (count : Nat) :
    bitsSet (masks.take count) + bitsSet (masks.drop count) = bitsSet masks := by
  unfold bitsSet
  rw [← List.sum_append, ← List.map_append, List.take_append_drop]

/-- Empty masks have no bits. -/
theorem bitsSet_append_empty (masks : List AnchorSlotMask) (count : Nat) :
    bitsSet (masks ++ List.replicate count ∅) = bitsSet masks := by
  simp [bitsSet]

/-- A sync touches the masks only. -/
theorem sync_inputs (model : HistogramModel) : SameInputs model model.syncAnchorBucketVectorSize :=
  ⟨rfl, rfl, rfl, rfl⟩

/-- After a sync there is one mask a bucket. -/
theorem sync_length (model : HistogramModel) :
    model.syncAnchorBucketVectorSize.anchorSlotPerBucket.length = model.index.buckets.length := by
  simp only [syncAnchorBucketVectorSize, List.length_append, List.length_take,
    List.length_replicate]
  omega

/-- A sync keeps the count of the bits right. -/
theorem sync_bits (counted : model.anchorBucketBitsSet = bitsSet model.anchorSlotPerBucket) :
    model.syncAnchorBucketVectorSize.anchorBucketBitsSet =
      bitsSet model.syncAnchorBucketVectorSize.anchorSlotPerBucket := by
  have parts := bitsSet_take_drop model.anchorSlotPerBucket model.index.buckets.length
  show model.anchorBucketBitsSet -
    bitsSet (model.anchorSlotPerBucket.drop model.index.buckets.length) =
    bitsSet (model.anchorSlotPerBucket.take model.index.buckets.length ++ List.replicate _ ∅)
  rw [bitsSet_append_empty]
  omega

/-- A sync that only adds masks shows the same bits. -/
theorem sync_maskAt (fits : model.anchorSlotPerBucket.length ≤ model.index.buckets.length)
    (bucket : Nat) :
    maskAt model.syncAnchorBucketVectorSize.anchorSlotPerBucket bucket =
      maskAt model.anchorSlotPerBucket bucket := by
  simp only [maskAt, syncAnchorBucketVectorSize, List.take_of_length_le fits, List.getElem?_append]
  split
  · rfl
  · rename_i past
    rw [List.getElem?_replicate, List.getElem?_eq_none (by omega)]
    split <;> rfl

/-- Setting a bit touches the masks only. -/
theorem setAnchorBit_inputs (model : HistogramModel) (bucket : Nat) (slot : AnchorColor) :
    SameInputs model (model.setAnchorBit bucket slot) ∧
      (model.setAnchorBit bucket slot).index = model.index ∧
      (model.setAnchorBit bucket slot).anchorSlotPerBucket.length =
        model.anchorSlotPerBucket.length := by
  unfold setAnchorBit
  split
  · exact ⟨.refl model, rfl, rfl⟩
  · split
    · exact ⟨.refl model, rfl, rfl⟩
    · exact ⟨⟨rfl, rfl, rfl, rfl⟩, rfl, List.length_set⟩

/-- The bit is set, and no other. -/
theorem mem_setAnchorBit (inside : bucket < model.anchorSlotPerBucket.length) (other : Nat)
    (asked : AnchorColor) :
    asked ∈ maskAt (model.setAnchorBit bucket slot).anchorSlotPerBucket other ↔
      asked ∈ maskAt model.anchorSlotPerBucket other ∨ (other = bucket ∧ asked = slot) := by
  obtain ⟨mask, held⟩ : ∃ mask, model.anchorSlotPerBucket[bucket]? = some mask :=
    ⟨_, List.getElem?_eq_getElem inside⟩
  unfold setAnchorBit
  rw [held]
  dsimp only
  split
  · rename_i already
    -- The bit was set before.
    refine ⟨.inl, fun known => known.elim id ?_⟩
    rintro ⟨rfl, rfl⟩
    rw [maskAt, held]
    exact already
  · unfold maskAt
    by_cases same : other = bucket
    · subst same
      rw [List.getElem?_set_self inside, held]
      simp [or_comm]
    · rw [List.getElem?_set_ne (Ne.symm same)]
      simp [same]

/-- A bit that is set is counted. -/
theorem setAnchorBit_bits
    (counted : model.anchorBucketBitsSet = bitsSet model.anchorSlotPerBucket) :
    (model.setAnchorBit bucket slot).anchorBucketBitsSet = bitsSet
      (model.setAnchorBit bucket slot).anchorSlotPerBucket := by
  unfold setAnchorBit
  split
  · exact counted
  · rename_i mask held
    -- A bit that was set is not counted again.
    split
    · exact counted
    · rename_i fresh
      have more := bitsSet_set held (insert slot mask)
      rw [Finset.card_insert_of_notMem fresh] at more
      dsimp only
      omega

end Masks

section Rebuilding

variable {model : HistogramModel}

/-- An anchored row is one of the rows, and its key is anchored. -/
theorem anchorSlotForRow_eq_some_iff {source : HistogramSource} {anchors : AnchorManager}
    {row : Nat} {slot : AnchorColor} :
    source.anchorSlotForRow anchors row = some slot ↔
      ∃ key, source.anchorKeyForRow row = some key ∧ anchors.colorFor key = some slot := by
  unfold HistogramSource.anchorSlotForRow
  split
  · rename_i empty
    -- Without anchors no key has a colour.
    have none_ : ∀ key, anchors.colorFor key = none := by
      intro key
      obtain ⟨entries, distinct⟩ := anchors
      have bare : entries = [] := List.isEmpty_iff.mp empty
      subst bare
      rfl
    simp [none_]
  · exact Option.bind_eq_some_iff

/-- A row that has a key is one of the rows. -/
theorem row_lt_of_key {source : HistogramSource} {row : Nat} {key : AnchorKey}
    (found : source.anchorKeyForRow row = some key) : row < source.table.rowCount := by
  obtain ⟨line, held, -⟩ := Option.map_eq_some_iff.mp found
  exact (List.getElem?_eq_some_iff.mp held).1

/-- The row that is found for a key has the key. -/
theorem key_of_sourceRow {source : HistogramSource} {key : AnchorKey} {row : Nat}
    (found : source.sourceRowForAnchorKey key = some row) :
    source.anchorKeyForRow row = some key := by
  simpa using List.find?_some found

/-- With columns that stand, a key lies in the bucket of its first row. -/
theorem bucketOfKey_eq_some_iff (stand : model.columnsStand = true) {key : AnchorKey}
    {bucket : Nat} :
    model.bucketOfKey key = some bucket ↔
      ∃ first, model.source.sourceRowForAnchorKey key = some first ∧
      (model.source.timestampForRow first).bind model.index.bucketOf = some bucket := by
  unfold bucketOfKey
  cases model.source.sourceRowForAnchorKey key with
  | none => simp
  | some first => simp [timeStampForRow_eq stand]

/-- Where the first rows of the keys tick as all rows do, the keys in a bucket have the colours of
its anchored rows. -/
theorem ticks_iff_key (stand : model.columnsStand = true) {bucket : Nat}
    (firsts : model.source.FirstRowsTick model.anchors model.index bucket) {slot : AnchorColor} :
    (∃ row < model.source.table.rowCount,
      model.source.Ticks model.anchors model.index bucket slot row) ↔
      ∃ key, model.bucketOfKey key = some bucket ∧ model.anchors.colorFor key = some slot := by
  -- By rows and by keys: the first row of a key stands for all of them.
  constructor
  · rintro ⟨row, -, ticks⟩
    obtain ⟨key, first, located, colored, placed⟩ := firsts slot row ticks
    exact ⟨key, (bucketOfKey_eq_some_iff stand).mpr ⟨first, located, placed⟩, colored⟩
  · rintro ⟨key, placed, colored⟩
    obtain ⟨row, located, inBucket⟩ := (bucketOfKey_eq_some_iff stand).mp placed
    have held := key_of_sourceRow located
    exact ⟨row, row_lt_of_key held, anchorSlotForRow_eq_some_iff.mpr ⟨key, held, colored⟩, inBucket⟩

/-- One key of the rebuilding adds its bit and nothing else. -/
theorem updateAnchorSlotForKey_spec (model : HistogramModel) (key : AnchorKey) :
    SameInputs model (model.updateAnchorSlotForKey key) ∧
      (model.updateAnchorSlotForKey key).index = model.index ∧
      (model.updateAnchorSlotForKey key).anchorSlotPerBucket.length =
        model.anchorSlotPerBucket.length ∧
      (model.anchorBucketBitsSet = bitsSet model.anchorSlotPerBucket →
        (model.updateAnchorSlotForKey key).anchorBucketBitsSet =
          bitsSet (model.updateAnchorSlotForKey key).anchorSlotPerBucket) := by
  unfold updateAnchorSlotForKey
  split
  · rename_i bucket slot _ _
    obtain ⟨inputs, index, length⟩ := setAnchorBit_inputs model bucket slot
    exact ⟨inputs, index, length, setAnchorBit_bits⟩
  · exact ⟨.refl model, rfl, rfl, id⟩

/-- The bits after one key. -/
theorem mem_updateAnchorSlotForKey
    (sized : model.anchorSlotPerBucket.length = model.index.buckets.length)
    (key : AnchorKey) (bucket : Nat) (slot : AnchorColor) :
    slot ∈ maskAt (model.updateAnchorSlotForKey key).anchorSlotPerBucket bucket ↔
      slot ∈ maskAt model.anchorSlotPerBucket bucket ∨
        (model.bucketOfKey key = some bucket ∧ model.anchors.colorFor key = some slot) := by
  unfold updateAnchorSlotForKey
  split
  · rename_i found color placed colored
    -- A bucket of the index has a mask.
    have inside : found < model.anchorSlotPerBucket.length := by
      obtain ⟨ts, -, inBucket⟩ := Option.bind_eq_some_iff.mp placed
      rw [sized]
      exact (HistogramBucketIndex.bucketOf_eq_some_iff.mp inBucket).1
    rw [mem_setAnchorBit inside, placed, colored, Option.some.injEq, Option.some.injEq, eq_comm,
      @eq_comm _ slot]
  · rename_i missing
    refine ⟨.inl, fun known => known.elim id ?_⟩
    rintro ⟨placed, colored⟩
    exact (missing bucket slot placed colored).elim

/-- The bits after all keys. -/
theorem foldl_updateAnchorSlotForKey (keys : List AnchorKey) :
    ∀ model : HistogramModel, model.anchorSlotPerBucket.length = model.index.buckets.length →
      model.anchorBucketBitsSet = bitsSet model.anchorSlotPerBucket →
      let after := keys.foldl updateAnchorSlotForKey model
      SameInputs model after ∧ after.index = model.index ∧
        after.anchorSlotPerBucket.length = model.anchorSlotPerBucket.length ∧
        after.anchorBucketBitsSet = bitsSet after.anchorSlotPerBucket ∧
        ∀ bucket slot, slot ∈ maskAt after.anchorSlotPerBucket bucket ↔
          slot ∈ maskAt model.anchorSlotPerBucket bucket ∨
            ∃ key ∈ keys, model.bucketOfKey key = some bucket ∧
              model.anchors.colorFor key = some slot := by
  induction keys with
  | nil =>
    intro model sized counted
    exact ⟨.refl model, rfl, rfl, counted, by simp⟩
  | cons key rest ih =>
    intro model sized counted
    obtain ⟨inputs, index, length, bits⟩ := updateAnchorSlotForKey_spec model key
    obtain ⟨laterInputs, laterIndex, laterLength, laterBits, members⟩ :=
      ih (model.updateAnchorSlotForKey key) (by rw [length, index, sized]) (bits counted)
    refine ⟨inputs.trans laterInputs, laterIndex.trans index, laterLength.trans length,
      laterBits, ?_⟩
    intro bucket slot
    rw [List.foldl_cons, members, mem_updateAnchorSlotForKey sized]
    -- Where a key lies does not depend on the bits that are set.
    simp only [inputs.bucketOfKey index, inputs.anchors, List.mem_cons, exists_eq_or_imp, or_assoc]

/-- Rebuilding the masks touches only them: one for each bucket, with the colours of the keys that
lie in it. -/
theorem rebuildAnchorBuckets_spec (model : HistogramModel) :
    SameInputs model model.rebuildAnchorBuckets ∧ model.rebuildAnchorBuckets.index = model.index ∧
      model.rebuildAnchorBuckets.anchorSlotPerBucket.length = model.index.buckets.length ∧
      model.rebuildAnchorBuckets.anchorBucketBitsSet =
        bitsSet model.rebuildAnchorBuckets.anchorSlotPerBucket ∧
      ∀ bucket slot, slot ∈ maskAt model.rebuildAnchorBuckets.anchorSlotPerBucket bucket ↔
        ∃ key, model.bucketOfKey key = some bucket ∧ model.anchors.colorFor key = some slot := by
  generalize bare : (⟨model.source, model.anchors, model.index, model.timeColumnIndex,
    model.levelColumnIndex,
    model.bucketSizePinned, [], 0⟩ : HistogramModel).syncAnchorBucketVectorSize = cleared
  have inputs : SameInputs model cleared := bare ▸ ⟨rfl, rfl, rfl, rfl⟩
  have sameIndex : cleared.index = model.index := bare ▸ rfl
  have length : cleared.anchorSlotPerBucket.length = cleared.index.buckets.length := by
    rw [sameIndex, ← bare]
    exact sync_length _
  have counted : cleared.anchorBucketBitsSet = bitsSet cleared.anchorSlotPerBucket := by
    rw [← bare]
    exact sync_bits rfl
  have empty : ∀ bucket, maskAt cleared.anchorSlotPerBucket bucket = ∅ := by
    intro bucket
    rw [← bare, sync_maskAt (Nat.zero_le _)]
    rfl
  -- Without a time column no key lies in a bucket, so the fold would not have set a bit either.
  have result : model.rebuildAnchorBuckets =
      (model.anchors.entriesIncludingRuntimeOnly.map Prod.fst).foldl updateAnchorSlotForKey
        cleared := by
    unfold rebuildAnchorBuckets
    dsimp only
    rw [bare]
    split
    · rename_i absent
      have nowhere : ∀ key, cleared.updateAnchorSlotForKey key = cleared := by
        intro key
        have missing : cleared.bucketOfKey key = none := by
          unfold bucketOfKey timeStampForRow
          rw [Option.isNone_iff_eq_none.mp absent]
          cases cleared.source.sourceRowForAnchorKey key <;> rfl
        unfold updateAnchorSlotForKey
        rw [missing]
      exact (List.foldl_fixed' nowhere _).symm
    · rfl
  obtain ⟨laterInputs, laterIndex, laterLength, laterBits, members⟩ := foldl_updateAnchorSlotForKey
    (model.anchors.entriesIncludingRuntimeOnly.map Prod.fst) cleared length counted
  rw [← result] at laterInputs laterIndex laterLength laterBits members
  refine ⟨inputs.trans laterInputs, laterIndex.trans sameIndex,
    by rw [laterLength, length, sameIndex], laterBits, ?_⟩
  intro bucket slot
  rw [members, empty]
  simp only [Finset.notMem_empty, false_or, inputs.bucketOfKey sameIndex, inputs.anchors]
  constructor
  · rintro ⟨key, -, placed, colored⟩
    exact ⟨key, placed, colored⟩
  · rintro ⟨key, placed, colored⟩
    refine ⟨key, ?_, placed, colored⟩
    obtain ⟨value, found, -⟩ := Option.map_eq_some_iff.mp colored
    exact List.mem_map.mpr ⟨(key, value), AnchorManager.mem_entriesIncludingRuntimeOnly.mpr found,
      rfl⟩

/-- Rebuilt masks are right if the index is, and the first rows of the keys tick as all rows do. -/
theorem rebuildAnchorBuckets_agrees (stand : model.columnsStand = true)
    (index : model.index = model.source.rebuiltIndex model.index.bucketSize)
    (firsts : ∀ bucket, model.source.FirstRowsTick model.anchors model.index bucket) :
    model.rebuildAnchorBuckets.AgreesWithRows := by
  -- The index stays, and the masks hold the colours of the keys.
  obtain ⟨inputs, sameIndex, length, bits, members⟩ := model.rebuildAnchorBuckets_spec
  refine ⟨by rw [inputs.columnsStand, stand], ?_, by rw [length, sameIndex], ?_, bits⟩
  · rw [sameIndex, inputs.source]
    exact index
  · intro bucket mask held slot
    rw [inputs.source, inputs.anchors, sameIndex, ticks_iff_key stand (firsts bucket), ← members,
      maskAt, held]
    rfl

/-- One row touches the index and the masks only, and counts the row. -/
theorem appendRow_spec (trackAnchors : Bool) (model : HistogramModel) (row : Nat) :
    SameInputs model (appendRow trackAnchors model row) ∧
      (model.columnsStand = true →
        (appendRow trackAnchors model row).index = model.source.countRow model.index row) := by
  unfold appendRow
  -- A row without an instant is not counted.
  cases shown : model.timeStampForRow row with
  | none =>
    refine ⟨.refl model, fun stand => ?_⟩
    rw [HistogramSource.countRow, ← timeStampForRow_eq stand, shown]
  | some ts =>
    dsimp only
    -- The instant and the level are those of the columns that stand.
    have counted : model.columnsStand = true →
        model.index.addRow ts (model.levelForRow row) = model.source.countRow model.index row := by
      intro stand
      rw [HistogramSource.countRow, ← timeStampForRow_eq stand, shown, levelForRow_eq stand]
    split
    · exact ⟨⟨rfl, rfl, rfl, rfl⟩, counted⟩
    · -- A tick changes anchors only.
      split
      · obtain ⟨inputs, index, -⟩ := setAnchorBit_inputs
          ({ model with index := model.index.addRow ts (model.levelForRow row) } :
            HistogramModel).syncAnchorBucketVectorSize
          _ _
        exact ⟨⟨inputs.source, inputs.anchors, inputs.time, inputs.level⟩, fun stand =>
          index.trans (counted stand)⟩
      · exact ⟨⟨rfl, rfl, rfl, rfl⟩, counted⟩

/-- Some rows touch the index and the masks only, and count the rows. -/
theorem foldl_appendRow (trackAnchors : Bool) (rows : List Nat) :
    ∀ model : HistogramModel, model.columnsStand = true →
      SameInputs model (rows.foldl (appendRow trackAnchors) model) ∧
        (rows.foldl (appendRow trackAnchors) model).index = rows.foldl model.source.countRow
          model.index := by
  -- Row by row; the index counts every row, whatever the masks do.
  induction rows with
  | nil => exact fun model _ => ⟨.refl model, rfl⟩
  | cons row rest ih =>
    intro model stand
    obtain ⟨inputs, index⟩ := appendRow_spec trackAnchors model row
    obtain ⟨later, counted⟩ :=
      ih (appendRow trackAnchors model row) (by rw [inputs.columnsStand, stand])
    refine ⟨inputs.trans later, ?_⟩
    rw [List.foldl_cons, List.foldl_cons, counted, inputs.source, index stand]

/-- Counting rows keeps the size of the buckets. -/
@[simp] theorem rebuiltIndex_bucketSize (source : HistogramSource) (size : HistogramBucketSize) :
    (source.rebuiltIndex size).bucketSize = size :=
  foldl_invariant (fun index : HistogramBucketIndex => index.bucketSize = size)
    (fun index row _ same => by
      unfold HistogramSource.countRow
      split
      · exact same
      · rw [HistogramBucketIndex.addRow_bucketSize, same]) rfl

/-- A rebuild counts all rows and rebuilds the masks, whatever the rows have left in them. -/
theorem rebuild_eq (stand : model.columnsStand = true) :
    ∃ middle : HistogramModel, model.rebuild = middle.rebuildAnchorBuckets ∧
      SameInputs model middle ∧
      middle.index = model.source.rebuiltIndex model.index.bucketSize := by
  unfold rebuild
  dsimp only
  -- Without a time column no row counts.
  split
  · rename_i absent
    refine ⟨_, rfl, ⟨rfl, rfl, rfl, rfl⟩, ?_⟩
    show HistogramBucketIndex.ofSize model.index.bucketSize = _
    -- Counting such a row changes nothing.
    have idle : ∀ (index : HistogramBucketIndex) row, model.source.countRow index row = index := by
      intro index row
      rw [HistogramSource.countRow, timestampForRow_of_none stand absent]
    exact (List.foldl_fixed' (fun row => idle _ row) _).symm
  · split
    · -- All rows are counted, one behind the other, from an empty index.
      rename_i present some_
      have filled : ({ model with index := model.index.reset } : HistogramModel).appendRange 0
        (model.source.table.rowCount - 1) =
          ((List.range' 0 (min (model.source.table.rowCount - 1 + 1) model.source.table.rowCount -
            0)).foldl
            (appendRow !model.anchors.entries.isEmpty)
            { model with index := model.index.reset }).syncAnchorBucketVectorSize := if_neg present
      refine ⟨_, congrArg rebuildAnchorBuckets filled, ?_⟩
      have all : min (model.source.table.rowCount - 1 + 1) model.source.table.rowCount - 0 =
          model.source.table.rowCount := by
        omega
      obtain ⟨inputs, index⟩ := foldl_appendRow (!model.anchors.entries.isEmpty)
        (List.range' 0 model.source.table.rowCount)
        { model with index := model.index.reset } (by rw [← stand]; rfl)
      rw [all]
      refine ⟨⟨inputs.source, inputs.anchors, inputs.time, inputs.level⟩, ?_⟩
      apply index.trans
      rw [← List.range_eq_range']
      rfl
    · -- Without rows the index is empty.
      rename_i none_
      refine ⟨_, rfl, ⟨rfl, rfl, rfl, rfl⟩, ?_⟩
      have zero : model.source.table.rowCount = 0 := by
        have none_ : ¬0 < model.source.table.rowCount := none_
        omega
      rw [HistogramSource.rebuiltIndex, HistogramSource.indexOfFirst, zero]
      rfl

/-- A rebuild keeps the inputs and the size of the buckets. -/
theorem rebuild_inputs (stand : model.columnsStand = true) :
    SameInputs model model.rebuild ∧ model.rebuild.index.bucketSize = model.index.bucketSize := by
  obtain ⟨middle, result, inputs, index⟩ := rebuild_eq stand
  obtain ⟨later, sameIndex, -⟩ := middle.rebuildAnchorBuckets_spec
  rw [result, sameIndex, index]
  exact ⟨inputs.trans later, rebuiltIndex_bucketSize _ _⟩

/-- A rebuild makes everything right, if the first rows of the keys tick as all rows do. -/
theorem rebuild_agrees (stand : model.columnsStand = true) (firsts : ∀ bucket,
    model.source.FirstRowsTick model.anchors
      (model.source.rebuiltIndex model.index.bucketSize) bucket) :
    model.rebuild.AgreesWithRows := by
  obtain ⟨middle, result, inputs, index⟩ := rebuild_eq stand
  rw [result]
  refine rebuildAnchorBuckets_agrees (by rw [inputs.columnsStand, stand]) ?_ ?_
  · rw [index, rebuiltIndex_bucketSize, inputs.source]
  · rw [inputs.source, inputs.anchors, index]
    exact firsts

end Rebuilding

end HistogramModel

end Loglib
