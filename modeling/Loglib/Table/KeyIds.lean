import Loglib.Basic.Runs
import Loglib.Table.Operations

/-! The cached key ids of the columns, and the one path that lets them fall behind the key index. -/

namespace Loglib

namespace LogTable

section Frames

/-- The second table has the keys of the first: the index, the cached ids and the columns' keys. -/
structure KeyFrame (old new : LogTable) : Prop where
  keys : new.keys = old.keys
  cached : new.columnKeyIds = old.columnKeyIds
  columnKeys : new.columns.map (·.keys) = old.columns.map (·.keys)

/-- A table has its own keys. -/
@[refl] theorem KeyFrame.refl (table : LogTable) : KeyFrame table table := ⟨rfl, rfl, rfl⟩

/-- Frames compose. -/
theorem KeyFrame.trans {first second third : LogTable} (left : KeyFrame first second)
    (right : KeyFrame second third) : KeyFrame first third :=
  ⟨right.keys.trans left.keys, right.cached.trans left.cached,
    right.columnKeys.trans left.columnKeys⟩

/-- Editing a column without its keys keeps the keys. -/
theorem keyFrame_modifyColumn (table : LogTable) (columnIndex : Nat) {edit : Column → Column}
    (keeps : ∀ column, (edit column).keys = column.keys) :
    KeyFrame table
      { table with configuration := table.configuration.modifyColumn columnIndex edit } :=
  ⟨rfl, rfl, table.configuration.keys_modifyColumn columnIndex keeps⟩

/-- Changing a type keeps the keys. -/
theorem keyFrame_setColumnType (table : LogTable) (columnIndex : Nat) (type : ColumnType) :
    KeyFrame table (table.setColumnType columnIndex type) :=
  table.keyFrame_modifyColumn columnIndex fun _ => rfl

/-- Trackers are not keys. -/
theorem keyFrame_setTracker (table : LogTable) (trackerKey : KeyId)
    (tracker : Option EnumCandidateTracker) :
    KeyFrame table (table.setTracker trackerKey tracker) := ⟨rfl, rfl, rfl⟩

/-- Encoding rows keeps the keys. -/
theorem keyFrame_encodeColumnRange (table : LogTable) (aliasKeys : List KeyId) (rowBegin : Nat)
    (healthKey : KeyId) :
    KeyFrame table (table.encodeColumnRange aliasKeys rowBegin healthKey).1 := by
  cases aliasKeys <;> exact ⟨rfl, rfl, rfl⟩

/-- Ranking levels keeps the keys. -/
theorem keyFrame_refreshLevelRankCache (table : LogTable) (columnIndex : Nat) :
    KeyFrame table (table.refreshLevelRankCache columnIndex) := by
  unfold refreshLevelRankCache
  repeat' split
  all_goals exact ⟨rfl, rfl, rfl⟩

/-- Promotion to a level column keeps the keys. -/
theorem keyFrame_maybePromoteToLevel (table : LogTable) (columnIndex : Nat) :
    KeyFrame table (table.maybePromoteToLevel columnIndex) := by
  rcases table.maybePromoteToLevel_cases columnIndex with same | ⟨_, canonical, -, -, -, -, -, same⟩
  · rw [same]
  · rw [same]
    have ranked := (table.keyFrame_setColumnType columnIndex .level).trans
      (keyFrame_refreshLevelRankCache _ columnIndex)
    exact ⟨ranked.keys, ranked.cached, ranked.columnKeys⟩

/-- Demotion keeps the keys. -/
theorem keyFrame_demoteColumnFromEnum {table next : LogTable} {columnIndex : Nat}
    {recordForBatch : Bool}
    (done : table.demoteColumnFromEnum columnIndex recordForBatch = some next) :
    KeyFrame table next := by
  have typed := table.keyFrame_setColumnType columnIndex .string
  -- A demotion changes types, rows and dictionaries.
  rcases demoteColumnFromEnum_cases done with ⟨same, -⟩ | ⟨column, -, -, retyped⟩
  · rw [same]
  · rcases retyped with ⟨-, same⟩ | ⟨canonical, aliases, sources, lines, -, -, same⟩
    · rw [same]
      exact typed
    · rw [same]
      exact ⟨rfl, rfl, typed.columnKeys⟩

end Frames

section Wiring

/-- Every key of the column has an id. -/
def AllRegistered (table : LogTable) (column : Column) : Prop :=
  ∀ key ∈ column.keys, (table.keys.find key).isSome

/-- Pointing registered keys at dictionaries keeps the keys. -/
theorem keyFrame_wireColumnKeys (table : LogTable) {names : List Bytes}
    (registered : ∀ key ∈ names, (table.keys.find key).isSome) :
    KeyFrame table (table.wireColumnKeys names).1 := by
  cases names with
  | nil => exact .refl table
  | cons key rest =>
    obtain ⟨head, found⟩ := Option.isSome_iff_exists.mp (registered key (List.mem_cons_self ..))
    have interned := KeyIndex.getOrInsert_of_find found
    simp only [wireColumnKeys, interned]
    -- The aliases are wired one by one, and none of them is new to the index.
    refine foldl_invariant (fun wired => KeyFrame table wired) ?_ ⟨rfl, rfl, rfl⟩
    intro wired alias_ member frame
    obtain ⟨id, located⟩ :=
      Option.isSome_iff_exists.mp (registered alias_ (List.mem_cons_of_mem _ member))
    have same : wired.keys.find alias_ = some id := by rw [frame.keys, located]
    refine .trans frame ⟨?_, rfl, rfl⟩
    simp [wireAlias, KeyIndex.getOrInsert_of_find same]

/-- A promotion keeps the keys when the column's keys are all registered. -/
theorem keyFrame_promoteColumnToEnum {table next : LogTable} {columnIndex : Nat}
    (registered : ∀ column, table.columns[columnIndex]? = some column → table.AllRegistered column)
    -- Setting the type, wiring the keys and encoding each keep the keys; so does what the encoding
    -- ends in.
    (done : table.promoteColumnToEnum columnIndex = some next) : KeyFrame table next := by
  unfold promoteColumnToEnum at done
  split at done
  · cases done; exact .refl table
  · rename_i column found
    split at done
    · cases done; exact .refl table
    · have wired := (table.keyFrame_setColumnType columnIndex .enumeration).trans
        (keyFrame_wireColumnKeys (table.setColumnType columnIndex .enumeration)
          (registered column found))
      split at done
      · rename_i result eq
        cases done
        rwa [eq] at wired
      · rename_i result canonical eq
        rw [eq] at wired
        have encoded := wired.trans
          (keyFrame_encodeColumnRange result (result.registeredKeys column) 0 canonical)
        rcases encodePromoted_cases done with demoted | ⟨-, same | same⟩
        · exact encoded.trans (keyFrame_demoteColumnFromEnum demoted)
        · exact same ▸ encoded
        · exact same ▸ encoded.trans (keyFrame_maybePromoteToLevel _ columnIndex)

end Wiring

section InStep

/-- The cached ids are what the key index gives for the columns' keys. -/
def KeyIdsInStep (table : LogTable) : Prop :=
  table.columnKeyIds = table.columns.map (resolveKeys table.keys)

/-- Being in step depends on the keys alone. -/
theorem KeyFrame.inStep {old new : LogTable} (frame : KeyFrame old new)
    (inStep : old.KeyIdsInStep) :
    new.KeyIdsInStep := by
  -- The ids follow from the keys of the columns and the index.
  have old_ : old.columns.map (resolveKeys old.keys) =
      (old.columns.map (·.keys)).map (List.map old.keys.find) := by
    rw [List.map_map]; rfl
  have new_ : new.columns.map (resolveKeys new.keys) =
      (new.columns.map (·.keys)).map (List.map new.keys.find) := by
    rw [List.map_map]; rfl
  unfold KeyIdsInStep at inStep ⊢
  rw [frame.cached, inStep, old_, new_, frame.columnKeys, frame.keys]

/-- A full refresh brings the cache in step. -/
theorem refreshColumnKeyIds_inStep (table : LogTable) : table.refreshColumnKeyIds.KeyIdsInStep :=
  rfl

/-- Interning keys moves no id, and gives one only to a key that is among them and had none. -/
theorem find_internKeys {table : LogTable} {names : List Bytes} {key : Bytes}
    (other : key ∈ names → (table.keys.find key).isSome) :
    (table.internKeys names).keys.find key = table.keys.find key := by
  -- Registering another key leaves this one.
  show (names.foldl (fun keys name => (keys.getOrInsert name).1) table.keys).find key = _
  refine foldl_invariant (fun (keys : KeyIndex) => keys.find key = table.keys.find key) ?_ rfl
  intro keys name member same
  by_cases equal : key = name
  · obtain ⟨id, held⟩ := Option.isSome_iff_exists.mp (other (equal ▸ member))
    rw [← equal, KeyIndex.getOrInsert_of_find (same.trans held), same]
  · rw [KeyIndex.find_getOrInsert_of_ne keys equal, same]

/-- The column shows a key that registering the names gives an id. -/
def ShowsNew (table : LogTable) (names : List Bytes) (column : Column) : Prop :=
  ∃ key ∈ column.keys, key ∈ names ∧ table.keys.find key = none

/-- Registering keys leaves the ids of every other column alone. -/
theorem resolveKeys_internKeys {table : LogTable} {names : List Bytes} {column : Column}
    (old : ¬table.ShowsNew names column) :
    resolveKeys (table.internKeys names).keys column = resolveKeys table.keys column := by
  refine List.map_congr_left fun key member => find_internKeys fun listed => ?_
  by_contra unknown
  exact old ⟨key, member, listed, Option.not_isSome_iff_eq_none.mp unknown⟩

/-- Registering keys that no column shows keeps the cache in step. -/
theorem internKeys_inStep {table : LogTable} {names : List Bytes} (inStep : table.KeyIdsInStep)
    (none_ : ∀ column ∈ table.columns, ¬table.ShowsNew names column) :
    (table.internKeys names).KeyIdsInStep := by
  show table.columnKeyIds = table.columns.map _
  rw [inStep]
  exact List.map_congr_left fun column member => (resolveKeys_internKeys (none_ column member)).symm

/-- A refresh for the new keys is as good as a full one, when the cache was in step before the keys
of its columns were registered. -/
theorem refreshColumnKeyIdsForKeys_inStep {old table : LogTable} {registered names : List Bytes}
    (before : old.KeyIdsInStep)
    (interned : table.keys = ((old.internKeys registered).internKeys names).keys)
    (reported : ∀ column ∈ old.columns, old.ShowsNew registered column →
    ∃ key ∈ names, key ∈ column.keys)
    (cached : table.columnKeyIds = old.columnKeyIds)
    {added : List Column} (columns : table.columns = old.columns ++ added)
    (fresh : ∀ column ∈ added, ∃ key ∈ names, key ∈ column.keys) :
    (table.refreshColumnKeyIdsForKeys names).KeyIdsInStep := by
  unfold refreshColumnKeyIdsForKeys
  split
  · -- Without new keys nothing was interned, and no column was added.
    rename_i none_
    have noNames : names = [] := List.isEmpty_iff.mp none_
    subst noNames
    have noColumns : added = [] := by
      cases added with
      | nil => rfl
      | cons column rest =>
        obtain ⟨key, member, -⟩ := fresh column (List.mem_cons_self ..); simp at member
    have kept : (old.internKeys registered).KeyIdsInStep := by
      refine internKeys_inStep before fun column member shows => ?_
      obtain ⟨key, listed, -⟩ := reported column member shows
      cases listed
    have frame : KeyFrame (old.internKeys registered) table :=
      ⟨interned, cached, by rw [columns, noColumns, List.append_nil]; rfl⟩
    exact frame.inStep kept
  · refine List.ext_getElem? fun columnIndex => ?_
    simp only [List.getElem?_mapIdx, List.getElem?_map]
    cases found : table.columns[columnIndex]? with
    | none => rfl
    | some column =>
      simp only [Option.map_some, Option.some.injEq]
      split
      · rfl
      · -- An untouched column was there before and shows no new key.
        rename_i untouched
        simp only [not_or, Bool.not_eq_true, List.any_eq_false, List.contains_iff_mem] at untouched
        have shows : ∀ key ∈ column.keys, key ∉ names := untouched.2
        have old_ : old.columns[columnIndex]? = some column := by
          rw [columns, List.getElem?_append] at found
          split at found
          · exact found
          · obtain ⟨key, isNew, shown⟩ := fresh column (List.mem_of_getElem? found)
            exact absurd isNew (shows key shown)
        have ids : old.columnKeyIds[columnIndex]? = some (resolveKeys old.keys column) := by
          rw [before, List.getElem?_map, old_]; rfl
        have quiet : ¬old.ShowsNew registered column := by
          intro lags
          obtain ⟨key, isNew, shown⟩ := reported column (List.mem_of_getElem? old_) lags
          exact shows key shown isNew
        have still : ¬(old.internKeys registered).ShowsNew names column :=
          fun ⟨key, shown, isNew, _⟩ => shows key shown isNew
        rw [cached, ids, interned, resolveKeys_internKeys still, resolveKeys_internKeys quiet]
        rfl

/-- Moving a column keeps the cache in step. -/
theorem moveColumn_inStep {table : LogTable} (inStep : table.KeyIdsInStep)
    (srcIndex destIndex : Nat) : (table.moveColumn srcIndex destIndex).KeyIdsInStep := by
  -- Columns and ids move alike.
  have lengths : table.columnKeyIds.length = table.columns.length := by rw [inStep]; simp
  unfold moveColumn
  split
  · exact inStep
  · rename_i moves
    rw [lengths] at moves
    unfold KeyIdsInStep columns LogConfiguration.moveColumn
    rw [if_neg moves]
    simp only
    rw [LogConfiguration.map_moveItem, inStep]

end InStep

section Clean

/-- The rows of the batch make the pass promote the candidate column. -/
def PromotesCandidate (table : LogTable) (oldLineCount columnIndex : Nat)
    (column : Column) : Prop :=
  column.type = .any ∧ column.autoDetect = true ∧
    ∃ trackerKey aliases, table.resolvedKeys columnIndex = trackerKey :: aliases ∧
      (table.scannedTracker oldLineCount trackerKey aliases).killed = false ∧
      (table.scannedTracker oldLineCount trackerKey aliases).ready table.enumValueCap
        table.promotionMinRows = true

/-- The pass promotes the column only if all its keys are registered. -/
def PassRegistered (oldLineCount : Nat) (walk : BackfillWalk) (columnIndex : Nat) : Prop :=
  ∀ column, walk.table.columns[columnIndex]? = some column →
    walk.table.PromotesCandidate oldLineCount columnIndex column → walk.table.AllRegistered column

/-- A tracker promotes the column only if all the column's keys are registered. -/
def SettlesRegistered (table : LogTable) (columnIndex : Nat) (tracker : EnumCandidateTracker) :
    Prop :=
  ∀ column, table.columns[columnIndex]? = some column → tracker.killed = false →
    tracker.ready table.enumValueCap 2 = true → table.AllRegistered column

/-- The sweep promotes the column only if all its keys are registered. -/
def SweepRegistered (table : LogTable) (columnIndex : Nat) : Prop :=
  ∀ tracker, table.survivingTracker columnIndex = some tracker →
    table.SettlesRegistered columnIndex tracker

/-- A rescan promotes the column only if all its keys are registered. -/
def RescanRegistered (table : LogTable) (columnIndex : Nat) : Prop :=
  ∀ trackerKey tracker, table.rescannedTracker columnIndex = some (trackerKey, tracker) →
    table.SettlesRegistered columnIndex tracker

/-- The operation promotes no column that has an unregistered key. -/
def PromotesRegistered (parse : TimestampParser) (table : LogTable) : TableOp → Prop
  | .appendBatch batch =>
    let walk := (table.internKeys batch.newKeys).appendBatchRows parse batch
    CleanRun (enumPassColumn table.lines.length) (PassRegistered table.lines.length) walk
      (List.range walk.table.columns.length)
  | .finalizeAutoDetection =>
    CleanRun finalizeCandidate SweepRegistered table (List.range table.columns.length)
  | .rescanColumnForAutoDetection columnIndex => table.RescanRegistered columnIndex
  | .applyColumnTypeEdit columnIndex type autoDetect =>
    ∀ before, table.columns[columnIndex]? = some before →
      ∀ changed, table.retypeColumn parse columnIndex type autoDetect before.type = some changed →
        type = .any → autoDetect = true → changed.RescanRegistered columnIndex
  | _ => True

end Clean

section Preservation

/-- Encoding the new rows of a dictionary column keeps the keys. -/
theorem keyFrame_encodeActiveColumn {table next : LogTable} {oldLineCount columnIndex : Nat}
    {column : Column} {repaint : Bool}
    (done : table.encodeActiveColumn oldLineCount columnIndex column = some (next, repaint)) :
    KeyFrame table next := by
  -- The new rows are encoded under the front key. What follows depends on the health of the
  -- dictionary.
  unfold encodeActiveColumn at done
  split at done
  · cases done; exact .refl table
  · rename_i canonical aliases ids
    have encoded := table.keyFrame_encodeColumnRange (canonical :: aliases) oldLineCount canonical
    simp only at done
    split at done
    · -- Too many values: the column is demoted.
      split at done
      · obtain ⟨demoted, converted, same⟩ := Option.map_eq_some_iff.mp done
        cases same
        exact encoded.trans (keyFrame_demoteColumnFromEnum converted)
      · cases done
        exact encoded
    · -- Too few repetitions demote it as well; else it may turn into a level column.
      split at done
      · obtain ⟨demoted, converted, same⟩ := Option.map_eq_some_iff.mp done
        cases same
        exact encoded.trans (keyFrame_demoteColumnFromEnum converted)
      · cases done
        refine encoded.trans (.trans ?_ (keyFrame_refreshLevelRankCache _ columnIndex))
        split
        · exact keyFrame_maybePromoteToLevel _ columnIndex
        · exact .refl _

/-- Settling a candidate keeps the keys unless it promotes a column with an unregistered key. -/
theorem keyFrame_settleCandidate {table next : LogTable} {columnIndex : Nat}
    {tracker : EnumCandidateTracker} (clean : table.SettlesRegistered columnIndex tracker)
    (done : table.settleCandidate columnIndex tracker = some next) : KeyFrame table next := by
  -- Three outcomes; only the promotion reads a key, and the condition says that it is registered.
  unfold settleCandidate at done
  split at done
  · cases done; exact table.keyFrame_setColumnType columnIndex .string
  · rename_i alive
    split at done
    · rename_i ready
      exact keyFrame_promoteColumnToEnum
        (fun column found => clean column found (by simpa using alive) ready) done
    · split at done
      · cases done; exact table.keyFrame_setColumnType columnIndex _
      · cases done; exact .refl table

/-- Scanning a candidate keeps the keys unless it promotes a column with an unregistered key. -/
theorem keyFrame_scanCandidateColumn {table next : LogTable} {oldLineCount columnIndex : Nat}
    {column : Column} {repaint : Bool} (found : table.columns[columnIndex]? = some column)
    (candidate : column.type = .any ∧ column.autoDetect = true)
    (clean : table.PromotesCandidate oldLineCount columnIndex column → table.AllRegistered column)
    (done : table.scanCandidateColumn oldLineCount columnIndex column = some (next, repaint)) :
    KeyFrame table next := by
  -- A candidate without ids keeps its tracker; one with ids is observed first.
  unfold scanCandidateColumn at done
  split at done
  · cases done; exact .refl table
  · cases done; exact .refl table
  · rename_i trackerKey aliases ids _
    have settled := table.keyFrame_setTracker trackerKey none
    simp only at done
    -- A tracker that has seen too many values ends the candidacy.
    split at done
    · cases done; exact settled.trans (keyFrame_setColumnType _ columnIndex _)
    · rename_i alive
      -- A tracker that has seen enough promotes the column, whose keys are then registered.
      split at done
      · rename_i ready
        obtain ⟨promoted, finished, same⟩ := Option.map_eq_some_iff.mp done
        cases same
        refine settled.trans (keyFrame_promoteColumnToEnum (fun other located => ?_) finished)
        have same : column = other := Option.some.inj (found.symm.trans located)
        rw [← same]
        exact clean ⟨candidate.1, candidate.2, trackerKey, aliases, ids,
          by simpa using alive, ready⟩
      · repeat' split at done
        all_goals cases done
        all_goals first
          | exact table.keyFrame_setTracker trackerKey _
          | exact settled.trans (keyFrame_setColumnType _ columnIndex _)

/-- A pass keeps the keys unless it promotes a column with an unregistered key. -/
theorem keyFrame_enumPassColumn {oldLineCount columnIndex : Nat} {walk next : BackfillWalk}
    (clean : PassRegistered oldLineCount walk columnIndex)
    (done : enumPassColumn oldLineCount walk columnIndex = some next) :
    KeyFrame walk.table next.table := by
  -- A column that is gone is passed over.
  unfold enumPassColumn at done
  simp only at done
  split at done
  · cases done; exact .refl _
  · rename_i column found
    split at done
    · cases done; exact .refl _
    · obtain ⟨⟨table, repaint⟩, finished, same⟩ := Option.map_eq_some_iff.mp done
      -- An enumeration column is encoded, a candidate scanned, and any other one left alone.
      have frame : KeyFrame walk.table table := by
        split at finished
        · exact keyFrame_encodeActiveColumn finished
        · split at finished
          · rename_i candidate
            exact keyFrame_scanCandidateColumn found candidate (clean column found) finished
          · cases finished; exact .refl _
      simp only at same
      split at same <;> (cases same; exact frame)

/-- Back-filling timestamps keeps the keys and the columns. -/
theorem backfillColumn_frame (parse : TimestampParser) (oldLineCount : Nat) (walk : BackfillWalk)
    (columnIndex : Nat) (column : Column) :
    let next := backfillColumn parse oldLineCount walk columnIndex column
    next.table.keys = walk.table.keys ∧ next.table.columnKeyIds = walk.table.columnKeyIds ∧
      next.table.configuration = walk.table.configuration := by
  simp only [backfillColumn]
  repeat' split
  all_goals exact ⟨rfl, rfl, rfl⟩

/-- The rows of a batch leave the cache in step, if the batch reports a key of every column that
shows one registered ahead. -/
theorem appendBatchRows_inStep {before table : LogTable} {registered : List Bytes}
    (parse : TimestampParser) (batch : StreamedBatch)
    (inStep : before.KeyIdsInStep) (ahead : table = before.internKeys registered)
    (reported : ∀ column ∈ before.columns, before.ShowsNew registered column →
    ∃ key ∈ batch.newKeys, key ∈ column.keys) :
    ((table.internKeys batch.newKeys).appendBatchRows parse batch).table.KeyIdsInStep := by
  subst ahead
  generalize same : before.internKeys registered = table
  have configuration : before.configuration = table.configuration := same ▸ rfl
  unfold appendBatchRows
  -- The walk over the columns keeps ids and keys.
  refine foldl_invariant (fun (walk : BackfillWalk) => walk.table.KeyIdsInStep) ?_ ?_
  · rintro walk ⟨column, columnIndex⟩ - holds
    obtain ⟨keys, cached, columns⟩ := backfillColumn_frame parse
      (table.internKeys batch.newKeys).lines.length walk columnIndex column
    have frame : KeyFrame walk.table (backfillColumn parse
        (table.internKeys batch.newKeys).lines.length walk columnIndex column).table :=
      ⟨keys, cached, by rw [LogTable.columns, columns]⟩
    exact frame.inStep holds
  · -- The columns behind the old ones show the new keys of the batch, which are registered.
    obtain ⟨added, fresh, -, columns⟩ := table.configuration.appendKeys_columns batch.newKeys
    have widened : (table.configuration.appendKeys batch.newKeys).columns =
        before.columns ++ added.map freshColumn := by rw [columns, ← configuration]
    refine refreshColumnKeyIdsForKeys_inStep inStep (by rw [same]; rfl) reported
      (same ▸ rfl) widened
      fun column member => ?_
    obtain ⟨key, isNew, shows⟩ := List.mem_map.mp member
    exact ⟨key, (fresh key isNew).1, by rw [← shows]; simp⟩

/-- `AppendBatch` leaves the cache in step. -/
theorem appendBatch_inStep {before table next : LogTable} {registered : List Bytes}
    {parse : TimestampParser} {batch : StreamedBatch}
    (inStep : before.KeyIdsInStep) (ahead : table = before.internKeys registered)
    (reported : ∀ column ∈ before.columns, before.ShowsNew registered column →
    ∃ key ∈ batch.newKeys, key ∈ column.keys)
    (clean : table.PromotesRegistered parse (.appendBatch batch))
    (done : (table.internKeys batch.newKeys).appendBatch parse batch = some next) :
    next.KeyIdsInStep := by
  -- The rows of the batch first, then the enum pass over the table they leave.
  obtain ⟨walk, passed, same⟩ := Option.map_eq_some_iff.mp done
  have rows := appendBatchRows_inStep parse batch inStep ahead reported
  have kept : walk.table.KeyIdsInStep := by
    unfold runEnumPass at passed
    split at passed
    · cases passed; exact rows
    · exact CleanRun.invariant _
        (fun walk columnIndex next holds clean done =>
          (keyFrame_enumPassColumn clean done).inStep holds)
        clean rows passed
  subst same
  exact kept

/-- `FinalizeAutoDetection` leaves the cache in step. -/
theorem finalizeAutoDetection_inStep {table next : LogTable} {parse : TimestampParser}
    (inStep : table.KeyIdsInStep) (clean : table.PromotesRegistered parse .finalizeAutoDetection)
    (done : table.finalizeAutoDetection = some next) : next.KeyIdsInStep := by
  -- The sweep over the candidates comes first, the settling of unhealthy dictionaries after it.
  unfold finalizeAutoDetection at done
  split at done
  · simp at done
  · rename_i swept candidates
    have sweptInStep : swept.KeyIdsInStep := by
      refine CleanRun.invariant _ (fun state columnIndex after holds clean done => ?_) clean inStep
        candidates
      unfold finalizeCandidate at done
      split at done
      · cases done; exact holds
      · rename_i tracker surviving
        exact (keyFrame_settleCandidate (clean tracker surviving) done).inStep holds
    split at done
    · simp at done
    · rename_i settled demotions
      -- Settling only demotes.
      have settledInStep : settled.KeyIdsInStep := by
        refine foldlM_invariant (fun state columnIndex after holds done => ?_) sweptInStep demotions
        unfold finalizeHealth at done
        repeat' split at done
        all_goals try (cases done; exact holds)
        exact (keyFrame_demoteColumnFromEnum done).inStep holds
      cases done
      exact settledInStep

/-- A rescan leaves the cache in step. -/
theorem rescan_inStep {table next : LogTable} {columnIndex : Nat} (inStep : table.KeyIdsInStep)
    (clean : table.RescanRegistered columnIndex)
    (done : table.rescanColumnForAutoDetection columnIndex = some next) : next.KeyIdsInStep := by
  unfold rescanColumnForAutoDetection at done
  split at done
  · cases done; exact inStep
  · rename_i trackerKey tracker scanned
    exact ((table.keyFrame_setTracker trackerKey none).trans
      (keyFrame_settleCandidate (clean trackerKey tracker scanned) done)).inStep inStep

/-- Turning a column into a time column keeps the keys. -/
theorem keyFrame_enterTime (parse : TimestampParser) (table : LogTable) (columnIndex : Nat) :
    KeyFrame table (table.enterTime parse columnIndex) := by
  -- Formats and types change, and the text of the rows.
  have seeded : KeyFrame table
      { table with configuration := table.configuration.seedTimeFormats columnIndex } :=
    table.keyFrame_modifyColumn columnIndex fun _ => rfl
  refine seeded.trans ?_
  unfold enterTime
  simp only
  split
  · exact .refl _
  · exact ⟨rfl, rfl, rfl⟩

/-- Turning a column into a dictionary column leaves the cache in step. -/
theorem enterEnum_inStep {table next : LogTable} {columnIndex : Nat} {column : Column}
    {previousType : ColumnType}
    (done : table.enterEnum columnIndex column previousType = some next) : next.KeyIdsInStep := by
  have seeded : table.refreshSnapshotEnumKeys.refreshColumnKeyIds.KeyIdsInStep :=
    refreshColumnKeyIds_inStep _
  -- The ids are read anew before the column is encoded.
  unfold enterEnum at done
  generalize table.refreshSnapshotEnumKeys.refreshColumnKeyIds = start at done seeded
  simp only at done
  split at done
  · cases done; exact seeded
  · rename_i canonical resolved
    generalize counted : ({ start with
      -- The health starts over unless the column was enumerated before.
      enumColumnHealth := Function.update start.enumColumnHealth canonical (some
        (if previousType.isEnumLike = true then (start.enumColumnHealth canonical).getD .empty
          else .empty)) } : LogTable) = reset at done
    have frame : KeyFrame start reset := by rw [← counted]; exact ⟨rfl, rfl, rfl⟩
    have encoded := frame.trans
      (keyFrame_encodeColumnRange reset (reset.registeredKeys column) 0 canonical)
    split at done
    · exact (encoded.trans (keyFrame_demoteColumnFromEnum done)).inStep seeded
    · cases done
      exact (encoded.trans (keyFrame_refreshLevelRankCache _ columnIndex)).inStep seeded

/-- Turning a column into a plain column keeps the keys. -/
theorem keyFrame_enterPlain {table next : LogTable} {columnIndex : Nat} {column : Column}
    {previousType : ColumnType}
    (done : table.enterPlain columnIndex column previousType = some next) :
    KeyFrame table next := by
  -- Dropping the time formats touches no key.
  unfold enterPlain at done
  have plain : KeyFrame table
      { table with
        configuration := table.configuration.dropTimeFormats columnIndex previousType } :=
    ⟨rfl, rfl, table.configuration.keys_dropTimeFormats columnIndex previousType⟩
  generalize table.configuration.dropTimeFormats columnIndex previousType = configuration
    at done plain
  simp only at done
  split at done
  · cases done; exact plain
  · rename_i canonical resolved
    -- A dictionary that no other column needs goes with the column.
    obtain ⟨demoted, converted, same⟩ := Option.map_eq_some_iff.mp done
    have frame : KeyFrame { table with configuration := configuration } demoted := by
      split at converted
      · cases converted; exact .refl _
      · obtain ⟨erased, finished, retyped⟩ := Option.map_eq_some_iff.mp converted
        rw [← retyped]
        exact ((keyFrame_setColumnType { table with configuration := configuration } columnIndex
          .enumeration).trans (keyFrame_demoteColumnFromEnum finished)).trans
          (keyFrame_setColumnType erased columnIndex column.type)
    rw [← same]
    have whole := plain.trans frame
    exact ⟨whole.keys, whole.cached, whole.columnKeys⟩

/-- The table's follow-up to a type edit refreshes the cache first. -/
theorem onUserChangedColumnType_inStep {table next : LogTable} {parse : TimestampParser}
    {columnIndex : Nat} {previousType : ColumnType} (inside : (table.columns[columnIndex]?).isSome)
    (done : table.onUserChangedColumnType parse columnIndex previousType = some next) :
    next.KeyIdsInStep := by
  unfold onUserChangedColumnType at done
  split at done
  · rename_i absent
    simp [absent] at inside
  · rename_i column found
    simp only at done
    -- Every way into a type starts by looking the keys up again.
    split at done
    · cases done
      exact (keyFrame_enterTime _ _ _).inStep (refreshColumnKeyIds_inStep _)
    · exact enterEnum_inStep done
    · exact enterEnum_inStep done
    · exact (keyFrame_enterPlain done).inStep (refreshColumnKeyIds_inStep _)

/-- The edit changes a column's type or its detection. -/
def Retypes (table : LogTable) (columnIndex : Nat) (type : ColumnType) (autoDetect : Bool) : Prop :=
  ∃ before, table.columns[columnIndex]? = some before ∧
    ¬(before.type = type ∧ before.autoDetect = autoDetect)

/-- A type edit brings the cache in step, unless it changes nothing. -/
theorem applyColumnTypeEdit_inStep {table next : LogTable} {parse : TimestampParser}
    {columnIndex : Nat} {type : ColumnType} {autoDetect : Bool}
    (inStep : ¬table.Retypes columnIndex type autoDetect → table.KeyIdsInStep)
    (clean : table.PromotesRegistered parse (.applyColumnTypeEdit columnIndex type autoDetect))
    (done : table.applyColumnTypeEdit parse columnIndex type autoDetect = some next) :
    next.KeyIdsInStep := by
  -- An edit of a column that is not there changes nothing.
  unfold applyColumnTypeEdit at done
  split at done
  · rename_i absent
    cases done
    refine inStep ?_
    rintro ⟨before, found, -⟩
    simp [absent] at found
  · rename_i before found
    -- The same type again changes nothing either.
    split at done
    · rename_i unchanged
      cases done
      refine inStep ?_
      rintro ⟨other, held, differs⟩
      obtain rfl := Option.some.inj (found.symm.trans held)
      exact differs unchanged
    · split at done
      · simp at done
      · -- Otherwise the ids are read anew, and a column that may be detected is scanned.
        rename_i changed retyped
        have inside : (table.configuration.setColumnTypePair columnIndex type
            autoDetect).columns[columnIndex]?.isSome := by
          have keys := table.configuration.keys_modifyColumn columnIndex
            (fun (column : Column) =>
              (rfl : ({ column with type := type, autoDetect := autoDetect } : Column).keys =
                column.keys))
          have size := congrArg List.length keys
          rw [List.length_map, List.length_map] at size
          have bound := (List.getElem?_eq_some_iff.mp found).1
          exact Option.isSome_iff_exists.mpr ⟨_, List.getElem?_eq_getElem (size ▸ bound)⟩
        have changedInStep : changed.KeyIdsInStep := onUserChangedColumnType_inStep inside retyped
        split at done
        · rename_i detect
          exact rescan_inStep changedInStep
            (clean before found changed retyped detect.1 detect.2) done
        · cases done; exact changedInStep

/-- Draining the bubble queue leaves the cache in step. -/
theorem applyPendingLevelBubbles_inStep {table : LogTable} (inStep : table.KeyIdsInStep) :
    table.applyPendingLevelBubbles.KeyIdsInStep := by
  unfold applyPendingLevelBubbles
  -- Key by key; each move keeps the ids in step.
  refine foldl_invariant KeyIdsInStep (fun state key _ holds => ?_) inStep
  simp only
  split
  · exact holds
  · split
    · exact moveColumn_inStep holds _ _
    · exact holds

/-- Evicting rows keeps the keys. -/
theorem keyFrame_evictPrefixRows (table : LogTable) (count : Nat) :
    KeyFrame table (table.evictPrefixRows count) := by
  unfold evictPrefixRows
  split
  · exact .refl table
  · split <;> exact ⟨rfl, rfl, rfl⟩

/-- A call of the table, and the keys that parser threads have registered since the last one. -/
structure TableCall where
  registered : List Bytes
  op : TableOp

/-- The state after a call, before the parser threads go on. -/
def callStep (parse : TimestampParser) (table : LogTable) (call : TableCall) : Option LogTable :=
  (table.internKeys call.registered).step parse call.op

/-- The operation looks the column's ids up again. -/
def Refreshes (table : LogTable) (column : Column) : TableOp → Prop
  | .beginStreaming _ => True
  | .appendBatch batch => ∃ key ∈ batch.newKeys, key ∈ column.keys
  | .applyColumnTypeEdit columnIndex type autoDetect => table.Retypes columnIndex type autoDetect
  | _ => False

/-- The call looks up every column that shows a newly registered key, and promotes none that has an
unregistered one. -/
def KeepsUp (parse : TimestampParser) (table : LogTable) (call : TableCall) : Prop :=
  (∀ column ∈ table.columns, table.ShowsNew call.registered column →
    table.Refreshes column call.op) ∧
    (table.internKeys call.registered).PromotesRegistered parse call.op

/-- Such a call leaves the cache in step. -/
theorem callStep_inStep {table next : LogTable} {parse : TimestampParser} {call : TableCall}
    (inStep : table.KeyIdsInStep) (keepsUp : table.KeepsUp parse call)
    (done : table.callStep parse call = some next) : next.KeyIdsInStep := by
  obtain ⟨registered, op⟩ := call
  obtain ⟨refreshes, clean⟩ := keepsUp
  -- Where nothing is looked up, no column may show a new key.
  have quiet (none_ : ∀ column, ¬table.Refreshes column op) :
      (table.internKeys registered).KeyIdsInStep :=
    internKeys_inStep inStep fun column member shows => none_ column (refreshes column member shows)
  simp only at refreshes clean
  unfold callStep at done
  simp only at done
  cases op with
  | beginStreaming source => cases done; exact refreshColumnKeyIds_inStep _
  | appendStreaming source => cases done; exact quiet fun _ => id
  | appendBatch batch => exact appendBatch_inStep inStep rfl refreshes clean done
  | parserLine source rawLine ownedBytes => cases done; exact quiet fun _ => id
  | parserOwned source text => cases done; exact quiet fun _ => id
  | moveColumn srcIndex destIndex =>
    cases done; exact moveColumn_inStep (quiet fun _ => id) srcIndex destIndex
  | applyPendingLevelBubbles =>
    cases done; exact applyPendingLevelBubbles_inStep (quiet fun _ => id)
  | finalizeAutoDetection => exact finalizeAutoDetection_inStep (quiet fun _ => id) clean done
  | rescanColumnForAutoDetection columnIndex => exact rescan_inStep (quiet fun _ => id) clean done
  | applyColumnTypeEdit columnIndex type autoDetect =>
    exact applyColumnTypeEdit_inStep (fun unchanged => quiet fun _ => unchanged) clean done
  | evictPrefixRows count =>
    cases done
    exact (keyFrame_evictPrefixRows _ count).inStep (quiet fun _ => id)
  | setEnumValueCap cap => cases done; exact quiet fun _ => id
  | setEnumValueMaxLen maxLen => cases done; exact quiet fun _ => id

end Preservation

section Runs

/-- With the cache in step, a value under any key of a column shows in the column. -/
theorem KeyIdsInStep.getValue_visible {table : LogTable} (inStep : table.KeyIdsInStep)
    {row columnIndex : Nat} {line : LogLine} {column : Column} {key : Bytes} {id : KeyId}
    (held : table.lines[row]? = some line) (shown : table.columns[columnIndex]? = some column)
    (member : key ∈ column.keys) (registered : table.keys.find key = some id)
    (present : (line.getValue table.context id).isMonostate = false) :
    (table.getValue row columnIndex).isMonostate = false := by
  have ids : table.columnKeyIds[columnIndex]? = some (resolveKeys table.keys column) := by
    rw [inStep, List.getElem?_map, shown]; rfl
  have listed : some id ∈ resolveKeys table.keys column :=
    List.mem_map.mpr ⟨key, member, registered⟩
  unfold getValue
  rw [ids, held]
  show (firstValue line table.context (resolveKeys table.keys column)).isMonostate = false
  clear ids
  generalize resolveKeys table.keys column = keyIds at listed
  -- The walk stops at this id at the latest.
  induction keyIds with
  | nil => simp at listed
  | cons head rest ih =>
    cases head with
    | none => exact ih (by simpa using listed)
    | some first =>
      simp only [firstValue]
      split
      · rename_i empty
        rcases List.mem_cons.mp listed with same | later
        · cases same
          simp [present] at empty
        · exact ih later
      · rename_i value
        simpa using value

/-- In every run of calls, whatever keys the parser threads register before each of them,
if each call looks up the columns that show a newly registered key and promotes none with
an unregistered one, the cached ids after every call are what the key index gives, and
every value shows in its column. -/
theorem run_keyIdsInStep {parse : TimestampParser} {configuration : LogConfiguration}
    {calls : List TableCall} {table : LogTable}
    (clean : CleanRun (callStep parse) (KeepsUp parse) (initial configuration) calls)
    (reached : calls.foldlM (callStep parse) (initial configuration) = some table) :
    table.columnKeyIds = table.columns.map (fun column => column.keys.map table.keys.find) ∧
      ∀ row columnIndex line column key id, table.lines[row]? = some line →
        table.columns[columnIndex]? = some column → key ∈ column.keys →
        table.keys.find key = some id → (line.getValue table.context id).isMonostate = false →
        (table.getValue row columnIndex).isMonostate = false := by
  have inStep : table.KeyIdsInStep :=
    clean.invariant _ (fun _ _ _ holds keepsUp done => callStep_inStep holds keepsUp done)
      (refreshColumnKeyIds_inStep _) reached
  exact ⟨inStep, fun row columnIndex line column key id held shown member registered present =>
    inStep.getValue_visible held shown member registered present⟩

/-- A candidate column that shows the keys `a` and `b`. -/
def aliasConfiguration : LogConfiguration :=
  ⟨[{ header := bytes "a", keys := [bytes "a", bytes "b"], printFormat := defaultPrintFormat,
      type := .any, parseFormats := [], levelMapping := [], autoDetect := true }], ⟨-1, false⟩⟩

/-- A stream of rows that carry `a` and never `b`: the parser registers `a`, and its batch
reports that. -/
def aliasRun (rows : List LogLine) : List TableCall :=
  [⟨[], .beginStreaming (some (.file (.ofData (bytes "x\nx\n"))))⟩,
    ⟨[bytes "a"], .appendBatch ⟨rows, [2, 4], [bytes "a"], []⟩⟩]

/-- A single row does not promote the column, so its cached ids stay in step. -/
theorem aliasRun_single_inStep : ∃ table,
    (aliasRun [LogLine.ofField 0 0 0 (.mmapSlice 0 1)]).foldlM (callStep fun _ _ => none)
      (initial aliasConfiguration) =
      some table ∧ table.columnKeyIds = [[some 0, none]] := by
  refine ⟨_, rfl, ?_⟩
  have clean : CleanRun (callStep fun _ _ => none) (KeepsUp fun _ _ => none)
      (initial aliasConfiguration) (aliasRun [LogLine.ofField 0 0 0 (.mmapSlice 0 1)]) := by
    refine ⟨⟨fun _ _ _ => trivial, trivial⟩, fun next first => ?_⟩
    cases first
    refine ⟨⟨fun column member _ => ?_, ?_, fun _ _ => trivial⟩, fun _ _ => trivial⟩
    · -- The batch reports the key that its parser has registered.
      obtain rfl := List.mem_singleton.mp member
      exact ⟨bytes "a", List.mem_singleton_self _, List.mem_cons_self⟩
    · intro column found promotes
      obtain ⟨-, -, trackerKey, aliases, ids, -, ready⟩ := promotes
      cases ids
      exact absurd ready (by decide)
  exact (run_keyIdsInStep clean rfl).1

/-- Two rows promote the column, which registers `b` and leaves its cached id missing. -/
theorem aliasRun_falls_behind :
    ¬∀ (configuration : LogConfiguration) (calls : List TableCall),
      ∀ table ∈ calls.foldlM (callStep fun _ _ => none) (initial configuration),
        table.columnKeyIds = table.columns.map (fun column => column.keys.map table.keys.find) := by
  intro claim
  have inStep := claim aliasConfiguration
    (aliasRun [LogLine.ofField 0 0 0 (.mmapSlice 0 1), LogLine.ofField 0 1 0 (.mmapSlice 2 1)]) _
      rfl
  exact absurd inStep (by decide)

end Runs

end LogTable

end Loglib
