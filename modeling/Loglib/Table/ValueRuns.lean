import Loglib.Table.RetainingBatches

/-! Dictionary encoding never changes a value, as long as encoders and demotions stay with one
dictionary. -/

namespace Loglib

namespace LogTable

variable {reads : Reads} {table : LogTable}

section Columns

/-- Moving a column is none of the rows' business. -/
theorem moveColumn_retains (table : LogTable) (srcIndex destIndex : Nat) :
    Retains reads table (some (table.moveColumn srcIndex destIndex)) := by
  unfold moveColumn
  split
  · exact .refl table
  · exact .of_same rfl rfl rfl

/-- Draining the bubble queue keeps all values. -/
theorem applyPendingLevelBubbles_retains (table : LogTable) :
    Retains reads table (some table.applyPendingLevelBubbles) := by
  -- First the list is emptied, then the columns move.
  have drained : Retains reads table (some { table with pendingLevelBubbleKeys := [] }) :=
    .of_same rfl rfl rfl
  refine drained.trans (Retains.foldl (fun table key => ?_) table.pendingLevelBubbleKeys _)
  simp only
  split
  · exact .refl table
  · split
    · exact moveColumn_retains table _ _
    · exact .refl table

/-- One column of the snapshot. -/
theorem refreshSnapshotEnumColumn_retains (table : LogTable) (columnIndex : Nat) :
    Retains reads table (some (table.refreshSnapshotEnumColumn columnIndex)) := by
  unfold refreshSnapshotEnumColumn
  split
  · exact .refl table
  · rename_i column inside
    -- Only a pinned enumeration column is wired and ranked.
    split
    · exact (wireColumnKeys_retains table column.keys).trans
        (refreshLevelRankCache_retains _ columnIndex)
    · exact .refl table

/-- The snapshot of the dictionary keys. -/
theorem refreshSnapshotEnumKeys_retains (table : LogTable) :
    Retains reads table (some table.refreshSnapshotEnumKeys) := by
  have reset : Retains reads table (some { table with levelRankCache := fun _ => none }) :=
    .of_same rfl rfl rfl
  exact reset.trans (Retains.foldl refreshSnapshotEnumColumn_retains
    (List.range table.columns.length) _)

end Columns

section Edits

/-- A column turned into a dictionary column encodes under keys of one dictionary, and demotes its
own if that fails. -/
def EnterEnumClean (table : LogTable) (columnIndex : Nat) (column : Column)
    (previousType : ColumnType) : Prop :=
  let table := table.refreshSnapshotEnumKeys.refreshColumnKeyIds
  ∀ canonical, column.keys.head?.bind table.keys.find = some canonical →
    let health := if previousType.isEnumLike then (table.enumColumnHealth canonical).getD .empty
      else .empty
    let table := { table with
      enumColumnHealth := Function.update table.enumColumnHealth canonical (some health) }
    let encoded := table.encodeColumnRange (table.registeredKeys column) 0 canonical
    table.SharesDictionary (table.registeredKeys column) 0 ∧ (encoded.2 = false →
      encoded.1.OwnsDictionary columnIndex)

/-- A column turned into a plain column drops its own dictionary, if its first key has one. -/
def EnterPlainClean (table : LogTable) (columnIndex : Nat) (column : Column)
    (previousType : ColumnType) : Prop :=
  let table := { table with
    configuration := table.configuration.dropTimeFormats columnIndex previousType }
  ∀ canonical, column.keys.head?.bind table.keys.find = some canonical →
    (table.enumDictionaries.find canonical).isSome = true →
      (table.setColumnType columnIndex .enumeration).OwnsDictionary columnIndex

/-- The table's follow-up to a type edit does either so. -/
def UserChangeClean (table : LogTable) (columnIndex : Nat) (previousType : ColumnType) : Prop :=
  ∀ column, table.columns[columnIndex]? = some column →
    let enumTrackers :=
      match column.keys.head?.bind table.keys.find with
      | some canonical => Function.update table.enumTrackers canonical none
      | none => table.enumTrackers
    let table := { table with enumTrackers := enumTrackers }.refreshColumnKeyIds
    (column.type.isEnumLike = true → table.EnterEnumClean columnIndex column previousType) ∧
      (column.type ≠ .time → column.type.isEnumLike = false →
        table.EnterPlainClean columnIndex column previousType)

/-- A column turned into a time column. -/
theorem enterTime_retains {parse : TimestampParser} {columnIndex : Nat} {column : Column}
    (inside : table.columns[columnIndex]? = some column) (time : column.type = .time)
    (sees : ∀ id text microseconds,
    (table.enterTime parse columnIndex).ReadsTime parse id text microseconds →
      reads id text microseconds) :
        Retains reads table (some (table.enterTime parse columnIndex)) := by
  -- Seeding the formats touches no row.
  have seeded : Retains reads table
      (some { table with configuration := table.configuration.seedTimeFormats columnIndex }) :=
    .of_same rfl rfl rfl
  refine seeded.trans ?_
  -- The seeded column is the one that is read, from the first row on.
  obtain ⟨seed, held, isTime⟩ : ∃ seed,
    (table.configuration.seedTimeFormats columnIndex).columns[columnIndex]? = some seed ∧
      seed.type = .time := by
    have inside : table.configuration.columns[columnIndex]? = some column := inside
    exact ⟨_, (List.getElem?_modify_eq _ _ _).trans (congrArg _ inside), time⟩
  have result : table.enterTime parse columnIndex = ({ table with
      configuration := table.configuration.seedTimeFormats columnIndex } :
        LogTable).backfillTimestampColumn parse seed 0 := by
    unfold enterTime
    simp only [LogTable.columns, held]
  rw [result] at sees ⊢
  exact @backfillTimestampColumn_retains reads
    { table with configuration := table.configuration.seedTimeFormats columnIndex }
    parse seed (List.mem_of_getElem? held) isTime sees 0

/-- A column turned into a dictionary column. -/
theorem enterEnum_retains {columnIndex : Nat} {column : Column} {previousType : ColumnType}
    (clean : table.EnterEnumClean columnIndex column previousType) :
    Retains reads table (table.enterEnum columnIndex column previousType) := by
  -- The seeding of the dictionaries of the configured columns changes no slot.
  have snapshot : Retains reads table (some table.refreshSnapshotEnumKeys.refreshColumnKeyIds) :=
    (refreshSnapshotEnumKeys_retains table).trans (.of_same rfl rfl rfl)
  refine snapshot.trans ?_
  unfold enterEnum
  simp only
  split
  · exact .refl _
  · rename_i canonical first
    obtain ⟨shares, owns⟩ := clean canonical first
    -- The health starts over, which no row shows.
    generalize counted : ({ table.refreshSnapshotEnumKeys.refreshColumnKeyIds with
      enumColumnHealth := Function.update
        table.refreshSnapshotEnumKeys.refreshColumnKeyIds.enumColumnHealth canonical (some
        (if previousType.isEnumLike = true
          then (table.refreshSnapshotEnumKeys.refreshColumnKeyIds.enumColumnHealth canonical).getD
            .empty
          else .empty)) } : LogTable) = start at shares owns ⊢
    have reset : Retains reads table.refreshSnapshotEnumKeys.refreshColumnKeyIds (some start) := by
      rw [← counted]
      exact .of_same rfl rfl rfl
    refine reset.trans ((encodeColumnRange_retains shares canonical).trans ?_)
    split
    · -- Too many values undo the change, by the condition with the column's own dictionary.
      rename_i full
      exact demoteColumnFromEnum_retains (owns full) false
    · exact refreshLevelRankCache_retains _ columnIndex

/-- A column turned into a plain column. -/
theorem enterPlain_retains {columnIndex : Nat} {column : Column} {previousType : ColumnType}
    (clean : table.EnterPlainClean columnIndex column previousType) :
    Retains reads table (table.enterPlain columnIndex column previousType) := by
  have dropped : Retains reads table (some { table with
      configuration := table.configuration.dropTimeFormats columnIndex previousType }) :=
        .of_same rfl rfl rfl
  refine dropped.trans ?_
  unfold EnterPlainClean at clean
  unfold enterPlain
  generalize table.configuration.dropTimeFormats columnIndex previousType = configuration at clean
  simp only at clean ⊢
  split
  · exact .refl _
  · rename_i canonical first
    rw [Option.map_eq_bind]
    refine Retains.bind ?_ fun next _ => .of_same rfl rfl rfl
    split
    · exact .refl _
    · rename_i dict found
      -- The type is lent to the column for the demotion, and restored.
      have lent : Retains reads ({ table with configuration := configuration } : LogTable) (some
          (({ table with configuration := configuration } : LogTable).setColumnType columnIndex
            .enumeration)) :=
        setColumnType_retains _ columnIndex .enumeration
      refine lent.trans ?_
      rw [Option.map_eq_bind]
      refine Retains.bind (demoteColumnFromEnum_retains (clean canonical first ?_) false)
        fun next _ =>
        setColumnType_retains next columnIndex column.type
      exact Option.isSome_iff_exists.mpr ⟨dict, found⟩

/-- The table's follow-up to a type edit; it reads timestamps only for a time column. -/
theorem onUserChangedColumnType_retains {parse : TimestampParser} {columnIndex : Nat}
    {previousType : ColumnType}
    (clean : table.UserChangeClean columnIndex previousType)
    (sees : ∀ column, table.columns[columnIndex]? = some column → column.type = .time → ∀ next,
      table.onUserChangedColumnType parse columnIndex previousType = some next →
        ∀ id text microseconds, next.ReadsTime parse id text microseconds →
          reads id text microseconds) :
    Retains reads table (table.onUserChangedColumnType parse columnIndex previousType) := by
  unfold onUserChangedColumnType at sees ⊢
  split
  · exact .refl table
  · rename_i column inside
    obtain ⟨entersEnum, entersPlain⟩ := clean column inside
    have sees := sees column inside
    simp only [inside] at sees
    -- Neither the dropped tracker nor the fresh ids are any of the rows' business.
    simp only
    split
    · rename_i time
      simp only [time] at sees
      refine Retains.trans ?_ (enterTime_retains inside time (sees trivial _ rfl))
      exact .of_same rfl rfl rfl
    · rename_i enumeration
      refine Retains.trans ?_ (enterEnum_retains (entersEnum (by rw [enumeration]; rfl)))
      exact .of_same rfl rfl rfl
    · rename_i level
      refine Retains.trans ?_ (enterEnum_retains (entersEnum (by rw [level]; rfl)))
      exact .of_same rfl rfl rfl
    · rename_i notTime notEnumeration notLevel
      have plain : column.type.isEnumLike = false := by
        cases type : column.type <;> simp_all [ColumnType.isEnumLike]
      refine Retains.trans ?_ (enterPlain_retains (entersPlain notTime plain))
      exact .of_same rfl rfl rfl

/-- A user's choice of type stays with one dictionary, and so does the rescan after it. -/
def TypeEditClean (parse : TimestampParser) (table : LogTable) (columnIndex : Nat)
    (type : ColumnType)
    (autoDetect : Bool) : Prop :=
  ∀ before, table.columns[columnIndex]? = some before →
    ¬(before.type = type ∧ before.autoDetect = autoDetect) →
    ({ table with
      configuration := table.configuration.setColumnTypePair columnIndex type autoDetect } :
      LogTable).UserChangeClean
      columnIndex before.type ∧
    ∀ changed, table.retypeColumn parse columnIndex type autoDetect before.type = some changed →
      type = .any → autoDetect = true → changed.RescanClean columnIndex

/-- A user's choice of type. -/
theorem applyColumnTypeEdit_retains {parse : TimestampParser} {columnIndex : Nat}
    {type : ColumnType} {autoDetect : Bool}
    (clean : table.TypeEditClean parse columnIndex type autoDetect)
    (sees : ∀ next, table.applyColumnTypeEdit parse columnIndex type autoDetect = some next →
      ∀ id text microseconds, next.ReadsTime parse id text microseconds →
        reads id text microseconds) :
    Retains reads table (table.applyColumnTypeEdit parse columnIndex type autoDetect) := by
  unfold applyColumnTypeEdit at sees ⊢
  split
  · exact .refl table
  · rename_i before inside
    simp only [inside] at sees
    split
    · exact .refl table
    · rename_i differs
      rw [if_neg differs] at sees
      obtain ⟨changes, rescans⟩ := clean before inside differs
      have paired : Retains reads table (some { table with
          configuration := table.configuration.setColumnTypePair columnIndex type autoDetect }) :=
            .of_same rfl rfl rfl
      have retyped : Retains reads table
          (table.retypeColumn parse columnIndex type autoDetect before.type) := by
        refine paired.trans (onUserChangedColumnType_retains changes
          fun column held time next done => ?_)
        -- After an edit to `Time` there is no rescan.
        have edited : column.type = type := by
          have held : (table.columns.modify columnIndex _)[columnIndex]? = some column := held
          rw [List.getElem?_modify_eq, inside] at held
          rw [← Option.some.inj held]
        have done : table.retypeColumn parse columnIndex type autoDetect before.type = some next :=
          done
        refine sees next ?_
        rw [done]
        simp only
        rw [if_neg]
        rintro ⟨any, -⟩
        rw [← edited, time] at any
        cases any
      split
      · rename_i failed
        rw [failed] at retyped
        exact retyped
      · rename_i changed done
        rw [done] at retyped
        refine retyped.trans ?_
        split
        · rename_i detects
          exact rescanColumnForAutoDetection_retains (rescans changed done detects.1 detects.2)
        · exact .refl changed

end Edits

section Sources

/-- Sources that grow keep all values. -/
theorem growSources_retains {table next : LogTable} (lines : next.lines = table.lines)
    (registry : next.enumDictionaries = table.enumDictionaries)
    (extended : SourcesExtend table.sources next.sources) :
    Retains reads table (some next) := by
  intro healthy
  refine ⟨next, rfl, healthy.of_grown lines extended (fun id dict found =>
    ⟨dict, registry ▸ found, .refl dict⟩) ?_⟩
  rw [registry]
  exact healthy.short

/-- Changing one source to a longer one extends all sources. -/
theorem modify_extends {change : LineSource → LineSource}
    (longer : ∀ source : LineSource, source.Extends (change source)) (sources : List LineSource)
    (position : Nat) : SourcesExtend sources (sources.modify position change) := by
  intro other source located
  by_cases same : position = other
  · subst same
    exact ⟨change source, by rw [List.getElem?_modify_eq, located]; rfl, longer source⟩
  · exact ⟨source, by rw [List.getElem?_modify_ne _ _ same, located], .refl source⟩

/-- A table without rows and dictionaries is healthy. -/
theorem Healthy.of_empty (lines : table.lines = []) (registry : table.enumDictionaries = .empty) :
    table.Healthy where
  -- There are no rows, and no dictionaries.
  readable _ listed := by
    rw [lines] at listed
    cases listed
  resolved _ listed := by
    rw [lines] at listed
    cases listed
  short _ _ found := by
    rw [registry] at found
    cases found

/-- So it is after the snapshot of its keys. -/
theorem snapshot_healthy (healthy : table.Healthy) :
    table.refreshSnapshotEnumKeys.refreshColumnKeyIds.Healthy := by
  have snapshot : Retains (fun _ _ _ =>
      False) table (some table.refreshSnapshotEnumKeys.refreshColumnKeyIds) :=
    (refreshSnapshotEnumKeys_retains table).trans (.of_same rfl rfl rfl)
  obtain ⟨next, same, kept, -⟩ := snapshot healthy
  exact Option.some.inj same ▸ kept

/-- A constructed table is healthy. -/
theorem initial_healthy (configuration : LogConfiguration) : (initial configuration).Healthy :=
  snapshot_healthy (.of_empty rfl rfl)

/-- A fresh stream is healthy. -/
theorem beginStreaming_healthy (table : LogTable) (source : Option LineSource) :
    (table.beginStreaming source).Healthy := by
  refine snapshot_healthy (.of_empty ?_ ?_)
  · unfold refreshSnapshotTimeKeys
    exact foldl_invariant (fun next : LogTable => next.lines = []) (fun _ _ _ same => same) rfl
  · unfold refreshSnapshotTimeKeys
    exact foldl_invariant (fun next : LogTable => next.enumDictionaries = .empty) (fun _ _ _ same =>
      same) rfl

end Sources

section Runs

/-- The operation evicts no rows, and a batch it appends carries no ids and has all its bytes. -/
def FeedsRows (table : LogTable) : TableOp → Prop
  | .evictPrefixRows _ => False
  | .appendBatch batch => Fed table.sources batch
  | _ => True

/-- Whatever the operation encodes gets ids of one dictionary, and whatever it demotes loses its own
dictionary only. -/
def StaysWithDictionaries (parse : TimestampParser) (table : LogTable) : TableOp → Prop
  | .appendBatch batch =>
    let walk := (table.internKeys batch.newKeys).appendBatchRows parse batch
    table.lines.length < walk.table.lines.length →
      CleanRun (enumPassColumn table.lines.length) (PassClean table.lines.length) walk
        (List.range walk.table.columns.length)
  | .finalizeAutoDetection => table.FinalizeClean
  | .rescanColumnForAutoDetection columnIndex => table.RescanClean columnIndex
  | .applyColumnTypeEdit columnIndex type autoDetect =>
    table.TypeEditClean parse columnIndex type autoDetect
  | _ => True

/-- The operation does not start over. -/
def GoesOn : TableOp → Prop
  | .beginStreaming _ => False
  | _ => True

/-- A column that reads a text reads it after the enumeration work. -/
theorem ReadsTime.of_enum {parse : TimestampParser} {old new : LogTable} (frame : EnumFrame old new)
    {id : KeyId} {text : Bytes}
    {microseconds : Int64} (read : old.ReadsTime parse id text microseconds) :
    new.ReadsTime parse id text microseconds := by
  obtain ⟨column, listed, time, ⟨name, inKeys, registered⟩, format, inFormats, parsed⟩ := read
  obtain ⟨position, inside⟩ := List.mem_iff_getElem?.mp listed
  obtain ⟨later, held, retyped⟩ := forall₂_getElem? frame.columns inside
  exact ⟨later, List.mem_of_getElem? held, retyped.time.mpr time,
    ⟨name, retyped.keys ▸ inKeys, frame.keys.find registered⟩,
    format, retyped.parseFormats ▸ inFormats, parsed⟩

/-- What a batch does once its rows are in the table keeps all values, theirs included. -/
theorem appendBatch_fromRows {parse : TimestampParser} {batch : StreamedBatch}
    (clean : table.lines.length < (table.appendBatchRows parse batch).table.lines.length →
      CleanRun (enumPassColumn table.lines.length) (PassClean table.lines.length)
        (table.appendBatchRows parse batch)
        (List.range (table.appendBatchRows parse batch).table.columns.length))
    (sees : ∀ next, table.appendBatch parse batch = some next →
      ∀ id text microseconds, next.ReadsTime parse id text microseconds →
        reads id text microseconds) :
    Retains reads (table.withRows batch) (table.appendBatch parse batch) := by
  unfold appendBatch at sees ⊢
  cases passed : runEnumPass table.lines.length (table.appendBatchRows parse batch) with
  | none =>
    -- The pass does not fail on a healthy table, so there is nothing that is read.
    intro healthy
    obtain ⟨rows, same, held, -⟩ := table.appendBatchRows_retains parse batch healthy
    obtain rfl := Option.some.inj same
    obtain ⟨next, done, -⟩ := @runEnumPass_retains reads _ _ clean held
    rw [passed] at done
    cases done
  | some walk =>
    rw [passed] at sees
    have rows : Retains reads (table.withRows batch)
        (some (table.appendBatchRows parse batch).table) := by
      refine (table.appendBatchRows_retains parse batch).mono fun id text microseconds read => ?_
      exact sees _ rfl id text microseconds (read.of_enum (enumFrame_runEnumPass passed))
    have pass := @runEnumPass_retains reads _ _ clean
    rw [passed] at pass
    exact rows.trans (Retains.trans pass (.of_same rfl rfl rfl))

/-- An operation that neither evicts nor starts over keeps the values of all rows. -/
theorem step_retains {parse : TimestampParser} {op : TableOp} (feeds : table.FeedsRows op)
    (stays : table.StaysWithDictionaries parse op) (goesOn : GoesOn op)
    (sees : ∀ next, table.step parse op = some next →
      ∀ id text microseconds, next.ReadsTime parse id text microseconds →
        reads id text microseconds) :
    Retains reads table (table.step parse op) := by
  cases op with
  -- A new stream starts without the rows, and is no step of this kind.
  | beginStreaming source => exact goesOn.elim
  | appendStreaming source => exact growSources_retains rfl rfl (.append table.sources [source])
  | appendBatch batch =>
    -- The keys of the batch are registered, its rows come in, and the passes go over them.
    have interned : Retains reads table (some (table.internKeys batch.newKeys)) :=
      .of_same rfl rfl rfl
    have rows : Retains reads (table.internKeys batch.newKeys)
        (some ((table.internKeys batch.newKeys).withRows batch)) :=
      withRows_retains feeds
    exact (interned.trans rows).trans (appendBatch_fromRows stays sees)
  | parserLine source rawLine ownedBytes =>
    -- What the parser writes comes behind what is there.
    refine growSources_retains rfl rfl (modify_extends (fun held => ?_) table.sources source)
    cases held with
    | stream backing => exact LineSource.extends_appendLine backing rawLine ownedBytes
    | file backing => exact .refl _
  | parserOwned source text =>
    refine growSources_retains rfl rfl (modify_extends (fun held => ?_) table.sources source)
    cases held with
    | stream backing => exact .refl _
    | file backing => exact LineSource.extends_file text rfl rfl
  | moveColumn srcIndex destIndex => exact moveColumn_retains table srcIndex destIndex
  | applyPendingLevelBubbles => exact applyPendingLevelBubbles_retains table
  | finalizeAutoDetection => exact finalizeAutoDetection_retains stays
  | rescanColumnForAutoDetection columnIndex => exact rescanColumnForAutoDetection_retains stays
  | applyColumnTypeEdit columnIndex type autoDetect => exact applyColumnTypeEdit_retains stays sees
  -- Rows that go are not fed, so this is no step of the run.
  | evictPrefixRows count => exact feeds.elim
  | setEnumValueCap cap => exact .of_same rfl rfl rfl
  | setEnumValueMaxLen maxLen => exact .of_same rfl rfl rfl

/-- The operation is fed, and stays with its dictionaries. -/
def RetainsRows (parse : TimestampParser) (table : LogTable) (op : TableOp) : Prop :=
  table.FeedsRows op ∧ table.StaysWithDictionaries parse op

/-- Such an operation goes through, and leaves a healthy table. -/
theorem step_healthy {parse : TimestampParser} {op : TableOp} (healthy : table.Healthy)
    (retains : table.RetainsRows parse op) :
    ∃ next, table.step parse op = some next ∧ next.Healthy := by
  -- A new stream starts from an empty table; every other operation goes on.
  by_cases goesOn : GoesOn op
  · obtain ⟨next, done, kept, -⟩ :=
      @step_retains (fun _ _ _ => True) table parse op retains.1 retains.2 goesOn
      (fun _ _ _ _ _ _ => trivial) healthy
    exact ⟨next, done, kept⟩
  · cases op with
    | beginStreaming source => exact ⟨_, rfl, beginStreaming_healthy table source⟩
    | _ => exact absurd trivial goesOn

/-- A run of them goes through, and leaves a healthy table. -/
theorem run_healthy {parse : TimestampParser} {ops : List TableOp} (healthy : table.Healthy)
    (retains : CleanRun (step parse) (RetainsRows parse) table ops) :
    ∃ final, run parse table ops = some final ∧ final.Healthy := by
  induction ops generalizing table with
  | nil => exact ⟨table, rfl, healthy⟩
  | cons op rest ih =>
    obtain ⟨next, done, kept⟩ := step_healthy healthy retains.1
    obtain ⟨final, later, reached⟩ := ih kept (retains.2 next done)
    exact ⟨final, by rw [run, List.foldlM_cons, done]; exact later, reached⟩

/-- In a table that the run passes through, a time column shows the key and has a format that reads
the text as the timestamp. -/
def ReadsTimeDuring (parse : TimestampParser) (table : LogTable) (ops : List TableOp) : Reads :=
  fun id text microseconds =>
  ∃ first, first <+: ops ∧ ∃ middle, run parse table first = some middle ∧
    middle.ReadsTime parse id text microseconds

/-- What is read in the rest of a run is read in the run. -/
theorem ReadsTimeDuring.cons {parse : TimestampParser} {next : LogTable} {op : TableOp}
    {rest : List TableOp}
    (done : table.step parse op = some next) {id : KeyId} {text : Bytes} {microseconds : Int64}
    (read : next.ReadsTimeDuring parse rest id text microseconds) :
    table.ReadsTimeDuring parse (op :: rest) id text microseconds := by
  obtain ⟨first, isPrefix, middle, ran, reads⟩ := read
  refine ⟨op :: first, List.cons_prefix_cons.mpr ⟨rfl, isPrefix⟩, middle, ?_, reads⟩
  rw [run, List.foldlM_cons, done]
  exact ran

/-- What a column reads right after the first operation is read in the run. -/
theorem ReadsTimeDuring.head {parse : TimestampParser} {next : LogTable} {op : TableOp}
    (rest : List TableOp)
    (done : table.step parse op = some next) {id : KeyId} {text : Bytes} {microseconds : Int64}
    (read : next.ReadsTime parse id text microseconds) :
    table.ReadsTimeDuring parse (op :: rest) id text microseconds :=
  .cons done ⟨[], List.nil_prefix, next, rfl, read⟩

/-- A run that neither evicts nor starts over keeps the values of all rows. -/
theorem run_retains {parse : TimestampParser} {ops : List TableOp}
    (retains : CleanRun (step parse) (RetainsRows parse) table ops)
    (goesOn : ∀ op ∈ ops, GoesOn op) :
    Retains (table.ReadsTimeDuring parse ops) table (run parse table ops) := by
  -- One operation, and then the rest of the run from the table it leaves.
  induction ops generalizing table with
  | nil => exact .refl table
  | cons op rest ih =>
    rw [run, List.foldlM_cons]
    have first := @step_retains (table.ReadsTimeDuring parse (op :: rest)) table parse op
      retains.1.1 retains.1.2
      (goesOn op List.mem_cons_self) fun next done _ _ _ read => .head rest done read
    refine first.bind fun next done => ?_
    exact (ih (retains.2 next done) fun other member =>
      goesOn other (List.mem_cons_of_mem op member)).mono
      fun _ _ _ read => .cons done read

/-- The rows of a batch show what was parsed, text apart that a time column reads as a timestamp,
and every id of the table resolves. -/
structure ShowsParsedValues (reads : Reads) (start final : LogTable)
    (batch : StreamedBatch) : Prop where
  values : ∀ (position : Nat) line, batch.lines[position]? = some line → ∃ row,
    final.lines[start.lines.length + position]? = some row ∧
      ∀ id, (line.getValue start.context id).Kept (reads id) (row.getValue final.context id)
  resolves : ∀ line ∈ final.lines, ∀ id vid, line.findCompact id = some (.dictRef vid) →
    ∃ dict, final.enumDictionaries.find id = some dict ∧ vid < dict.size

/-- In every run whose operations stay with their dictionaries, the rows of every batch show what
was parsed, whatever comes after it, and every id resolves. -/
theorem run_showsParsedValues {parse : TimestampParser} {configuration : LogConfiguration}
    {before after : List TableOp}
    {batch : StreamedBatch}
    (retains : CleanRun (step parse) (RetainsRows parse) (initial configuration)
    (before ++ .appendBatch batch :: after))
    (goesOn : ∀ op ∈ after, GoesOn op) :
    ∃ start final, run parse (initial configuration) before = some start ∧
      run parse (initial configuration) (before ++ .appendBatch batch :: after) = some final ∧
      ShowsParsedValues (start.ReadsTimeDuring parse (.appendBatch batch :: after)) start final
        batch := by
  obtain ⟨first, rest⟩ := retains.append
  obtain ⟨start, begun, healthy⟩ := run_healthy (initial_healthy configuration) first
  obtain ⟨⟨fed, clean⟩, later⟩ := rest start begun
  have fed : Fed (start.internKeys batch.newKeys).sources batch := fed
  -- From the moment the rows stand in the table, every step keeps their values.
  have interned : Retains (start.ReadsTimeDuring parse (.appendBatch batch :: after)) start
      (some (start.internKeys batch.newKeys)) := .of_same rfl rfl rfl
  obtain ⟨rows, same, held, -⟩ := (interned.trans (withRows_retains fed)) healthy
  obtain rfl := Option.some.inj same
  obtain ⟨next, appended, kept, values⟩ := @appendBatch_fromRows
    (start.ReadsTimeDuring parse (.appendBatch batch :: after)) (start.internKeys batch.newKeys)
      parse batch clean
    (fun next done _ _ _ read =>
      @ReadsTimeDuring.head start parse next (.appendBatch batch) after done _ _ _ read) held
  have appended : step parse start (.appendBatch batch) = some next := appended
  obtain ⟨final, done, reached, more⟩ := run_retains (later next appended) goesOn kept
  refine ⟨start, final, begun, ?_, fun position line parsed => ?_, reached.resolved⟩
  · have begun : before.foldlM (step parse) (initial configuration) = some start := begun
    have done : after.foldlM (step parse) next = some final := done
    rw [run, List.foldlM_append, begun]
    show (TableOp.appendBatch batch :: after).foldlM (step parse) start = some final
    rw [List.foldlM_cons, appended]
    exact done
  · obtain ⟨placed, shows⟩ := withRows_shows fed parsed
    obtain ⟨row, inside, keeps⟩ :=
      (values.trans (more.mono fun _ _ _ read => .cons appended read)) _ line placed
    refine ⟨row, inside, fun id => ?_⟩
    have shows : line.getValue ((start.internKeys batch.newKeys).withRows batch).context id =
        line.getValue start.context id := shows id
    rw [← shows]
    exact keeps id

/-- A column of dictionary values that the user has pinned. -/
def pinnedColumn (header : Bytes) (keys : List Bytes) : Column where
  header := header
  keys := keys
  printFormat := defaultPrintFormat
  type := .enumeration
  parseFormats := []
  levelMapping := []
  autoDetect := false

/-- A row with the text of the first byte of its file. -/
def oneByteRow (id : KeyId) : LogLine := .ofField 0 0 id (.mmapSlice 0 1)

/-- The row is readable from a file that starts with a byte. -/
theorem oneByteRow_fed (id : KeyId) {sources : List LineSource} {file : LogFile}
    (located : sources[0]? = some (.file file)) (sized : (slice file.data 0 1).length = 1)
    (offsets : List Nat) (newKeys : List Bytes) :
    Fed sources ⟨[oneByteRow id], offsets, newKeys, []⟩ := by
  intro line listed
  obtain rfl := List.mem_singleton.mp listed
  exact ofField_fed located trivial sized rfl

/-- Two dictionary columns that show `b`, one of them together with `a`. -/
def fightingConfiguration : LogConfiguration :=
  ⟨[pinnedColumn (bytes "y") [bytes "b"], pinnedColumn (bytes "x") [bytes "a", bytes "b"]],
    ⟨-1, false⟩⟩

/-- Left alone, the two columns share `b`: the first encodes it into its own dictionary, and the
second leaves the id alone. -/
theorem sharedRun_shows : ∃ start final,
    run (fun _ _ => none) (initial fightingConfiguration)
      [.beginStreaming (some (.file (.ofData (bytes "x\n"))))] = some start ∧
    run (fun _ _ => none) (initial fightingConfiguration)
      [.beginStreaming (some (.file (.ofData (bytes "x\n")))),
        .appendBatch ⟨[oneByteRow 0], [2], [], []⟩,
        .finalizeAutoDetection] = some final ∧
    ShowsParsedValues (start.ReadsTimeDuring (fun _ _ => none)
      [.appendBatch ⟨[oneByteRow 0], [2], [], []⟩, .finalizeAutoDetection]) start final
        ⟨[oneByteRow 0], [2], [], []⟩ := by
  refine @run_showsParsedValues _ _ [.beginStreaming (some (.file (.ofData (bytes "x\n"))))]
    [.finalizeAutoDetection]
    ⟨[oneByteRow 0], [2], [], []⟩ ?_ (by simp [GoesOn])
  refine ⟨⟨trivial, trivial⟩, fun next first => ?_⟩
  cases first
  refine ⟨⟨oneByteRow_fed 0 rfl rfl [2] [], fun _ => ⟨fun column inside => ?_, fun walk passed =>
    ⟨fun column inside => ?_, fun _ _ => trivial⟩⟩⟩, fun later appended => ?_⟩
  · -- The first column has one key, and its type is pinned.
    cases inside
    refine ⟨fun _ canonical aliases ids => ?_, fun any => (by cases any)⟩
    cases ids
    exact ⟨sharesDictionary_of_lone (fun _ => List.mem_singleton.mp) 0, fun detected =>
      (by cases detected)⟩
  · -- The second one finds the id of the first, and no text to encode.
    cases passed
    cases inside
    refine ⟨fun _ canonical aliases ids => ?_, fun any => (by cases any)⟩
    cases ids
    refine ⟨fun canonical first line member id picked => ?_, fun detected => (by cases detected)⟩
    obtain rfl := List.mem_singleton.mp member
    cases picked
  · cases appended
    refine ⟨⟨trivial, ⟨fun tracker surviving => (by cases surviving), fun middle kept =>
      ⟨fun tracker surviving => (by cases kept; cases surviving), fun _ _ => trivial⟩⟩,
        fun swept sweeps => ?_⟩, fun _ _ => trivial⟩
    cases sweeps
    refine ⟨fun column health inside detected => ?_, fun settled healths =>
      ⟨fun column health inside detected => ?_,
      fun _ _ => trivial⟩⟩
    · cases inside
      cases detected
    · cases healths
      cases inside
      cases detected

/-- A session in which the user turns the first of the two columns into text. -/
def fightingRun : List TableOp :=
  [.beginStreaming (some (.file (.ofData (bytes "x\n")))), .applyColumnTypeEdit 0 .string false]

/-- The second column then encodes `b` into the dictionary of `a`, where `b` does not look. -/
theorem fightingRun_loses_value :
    ¬∀ (configuration : LogConfiguration) (before after : List TableOp) (batch : StreamedBatch),
      CleanRun (step fun _ _ => none) FeedsRows (initial configuration)
        (before ++ .appendBatch batch :: after) →
      (∀ op ∈ after, GoesOn op) →
      ∃ start final, run (fun _ _ => none) (initial configuration) before = some start ∧
        run (fun _ _ => none) (initial configuration) (before ++ .appendBatch batch :: after) =
          some final ∧
        ShowsParsedValues (start.ReadsTimeDuring (fun _ _ => none) (.appendBatch batch :: after))
          start final batch := by
  intro claim
  obtain ⟨start, final, begun, done, shows⟩ :=
    claim fightingConfiguration fightingRun [] ⟨[oneByteRow 0], [2], [], []⟩
      ⟨trivial, fun next first => ⟨trivial, fun later edited => by
        cases first
        cases edited
        exact ⟨oneByteRow_fed 0 rfl rfl [2] [], fun _ _ => trivial⟩⟩⟩ (by simp)
  cases begun
  cases done
  obtain ⟨row, held, kept⟩ := shows.values 0 (oneByteRow 0) rfl
  cases held
  -- The row had the text `x` under `b`, and has no value there any more.
  obtain ⟨reads, lost⟩ : ∃ reads, (LogValue.string (bytes "x")).Kept reads .monostate := ⟨_, kept 0⟩
  cases lost

end Runs

end LogTable

end Loglib
