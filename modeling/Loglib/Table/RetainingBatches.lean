import Loglib.Table.KeyIds
import Loglib.Table.RetainingSteps
import Loglib.Table.TableFrames

/-! Promotions, batches and sweeps keep the values of a healthy table where each piece of their work
stays with one dictionary. -/

namespace Loglib

namespace LogTable

variable {reads : Reads} {table : LogTable}

section Promotion

/-- A promotion with wired keys encodes under keys of one dictionary, and demotes its own
if that fails. -/
def PromotedClean (wired : LogTable) (columnIndex : Nat) (column : Column)
    (canonical : KeyId) : Prop :=
  let encoded := wired.encodeColumnRange (wired.registeredKeys column) 0 canonical
  let health := (encoded.1.enumColumnHealth canonical).getD .empty
  wired.SharesDictionary (wired.registeredKeys column) 0 ∧
    (encoded.2 = false ∨ health.shouldDemote enumHealthMinSamples →
      encoded.1.OwnsDictionary columnIndex)

/-- A promotion wires the keys, and goes on so. -/
def PromotionClean (table : LogTable) (columnIndex : Nat) : Prop :=
  ∀ column, table.columns[columnIndex]? = some column → column.type.isEnumLike = false →
    ∀ wired canonical, (table.setColumnType columnIndex .enumeration).wireColumnKeys column.keys =
      (wired, some canonical) →
      wired.PromotedClean columnIndex column canonical

/-- A column with wired keys is encoded, and demoted again if that fails. -/
theorem encodePromoted_retains {columnIndex : Nat} {column : Column} {canonical : KeyId}
    (clean : table.PromotedClean columnIndex column canonical) :
    Retains reads table (table.encodePromoted columnIndex column canonical) := by
  refine (encodeColumnRange_retains clean.1 canonical).trans ?_
  unfold encodePromoted
  simp only
  -- A pass that fails is undone by the demotion.
  split
  · rename_i fails
    exact demoteColumnFromEnum_retains (clean.2 fails) true
  · split
    · exact maybePromoteToLevel_retains _ columnIndex
    · exact .refl _

/-- A promotion goes through, and keeps all values. -/
theorem promoteColumnToEnum_retains {columnIndex : Nat} (clean : table.PromotionClean columnIndex) :
    Retains reads table (table.promoteColumnToEnum columnIndex) := by
  unfold promoteColumnToEnum
  split
  · -- A column that is gone, or that is a time column, is not promoted.
    exact .refl table
  · rename_i column inside
    split
    · exact .refl table
    · rename_i plain
      -- The new type and the wired keys change no slot.
      have typed : Retains reads table (some (table.setColumnType columnIndex .enumeration)) :=
        setColumnType_retains table columnIndex .enumeration
      have wired := typed.trans (wireColumnKeys_retains _ column.keys)
      split
      · rename_i result keyless
        rwa [keyless] at wired
      · -- Only the encoding writes slots, and how it ends is in the condition.
        rename_i result canonical keyed
        rw [keyed] at wired
        exact wired.trans (encodePromoted_retains
          (clean column inside (by simpa using plain) result canonical keyed))

end Promotion

section Batches

/-- The new rows of a dictionary column are encoded under keys of one dictionary, and a demotion
drops the column's own. -/
def EncodingClean (table : LogTable) (oldLineCount columnIndex : Nat) (column : Column) : Prop :=
  ∀ canonical aliases, table.resolvedKeys columnIndex = canonical :: aliases →
    let encoded := table.encodeColumnRange (canonical :: aliases) oldLineCount canonical
    let health := (encoded.1.enumColumnHealth canonical).getD .empty
    table.SharesDictionary (canonical :: aliases) oldLineCount ∧
      (column.autoDetect = true → encoded.2 = false ∨ health.shouldDemote enumHealthMinSamples →
        encoded.1.OwnsDictionary columnIndex)

/-- The new rows of a candidate lead to no other promotion than one that stays with one
dictionary. -/
def ScanClean (table : LogTable) (oldLineCount columnIndex : Nat) : Prop :=
  ∀ trackerKey aliases, table.resolvedKeys columnIndex = trackerKey :: aliases →
    (table.scannedTracker oldLineCount trackerKey aliases).killed = false →
    (table.scannedTracker oldLineCount trackerKey aliases).ready table.enumValueCap
      table.promotionMinRows = true →
      (table.setTracker trackerKey none).PromotionClean columnIndex

/-- The pass over one column. -/
def PassClean (oldLineCount : Nat) (walk : BackfillWalk) (columnIndex : Nat) : Prop :=
  ∀ column, walk.table.columns[columnIndex]? = some column →
    (column.type.isEnumLike = true → walk.table.EncodingClean oldLineCount columnIndex column) ∧
    (column.type = .any → column.autoDetect = true → walk.table.ScanClean oldLineCount columnIndex)

/-- A flag that is added to a result and dropped again. -/
theorem map_pair_fst (result : Option LogTable) (flag : Bool) :
    (result.map fun next => (next, flag)).map Prod.fst = result := by
  cases result <;> rfl

/-- Encoding the new rows of a dictionary column. -/
theorem encodeActiveColumn_retains {oldLineCount columnIndex : Nat} {column : Column}
    (clean : table.EncodingClean oldLineCount columnIndex column) :
    Retains reads table ((table.encodeActiveColumn oldLineCount columnIndex column).map
      Prod.fst) := by
  unfold encodeActiveColumn
  split
  · exact .refl table
  · rename_i canonical aliases ids
    -- The rows are encoded into the dictionary of the front key, which the row's other dictionaries
    -- agree with.
    obtain ⟨shares, owns⟩ := clean canonical aliases ids
    refine (encodeColumnRange_retains shares canonical).trans ?_
    simp only
    split
    · -- A demotion reads the ids back in the front key's dictionary, which is the column's own.
      rename_i full
      split
      · rename_i detected
        rw [map_pair_fst]
        exact demoteColumnFromEnum_retains (owns detected (.inl full)) true
      · exact .refl _
    · split
      · rename_i poor
        rw [map_pair_fst]
        exact demoteColumnFromEnum_retains (owns poor.1 (.inr poor.2)) true
      · -- A level column only ranks its values.
        refine .trans ?_ (refreshLevelRankCache_retains _ columnIndex)
        split
        · exact maybePromoteToLevel_retains _ columnIndex
        · exact .refl _

/-- Scanning the new rows of a candidate column. -/
theorem scanCandidateColumn_retains {oldLineCount columnIndex : Nat}
    (clean : table.ScanClean oldLineCount columnIndex)
    (column : Column) : Retains reads table
    ((table.scanCandidateColumn oldLineCount columnIndex column).map Prod.fst) := by
  -- A tracker and a type are no part of what a row shows.
  have tracked (trackerKey : KeyId) (tracker : Option EnumCandidateTracker) :
      Retains reads table (some (table.setTracker trackerKey tracker)) := .of_same rfl rfl rfl
  have bailed (trackerKey : KeyId) (type : ColumnType) :
      Retains reads table (some
        ((table.setTracker trackerKey none).setColumnType columnIndex type)) := .of_same rfl rfl rfl
  unfold scanCandidateColumn
  split
  · exact .refl table
  · exact .refl table
  · rename_i trackerKey aliases ids _
    simp only
    split
    · exact bailed trackerKey .string
    · rename_i alive
      split
      · -- Observations are settled by a promotion; every other branch keeps or drops the tracker.
        rename_i decided
        rw [map_pair_fst]
        exact (tracked trackerKey none).trans
          (promoteColumnToEnum_retains
            (clean trackerKey aliases ids (by simpa using alive) decided))
      · split
        · exact tracked trackerKey _
        · split
          · exact tracked trackerKey _
          · split
            · exact bailed trackerKey _
            · split
              · exact bailed trackerKey .string
              · exact tracked trackerKey _

/-- The enumeration pass over one column. -/
theorem enumPassColumn_retains {oldLineCount : Nat} (walk : BackfillWalk) (columnIndex : Nat)
    (clean : PassClean oldLineCount walk columnIndex) :
    Retains reads walk.table ((enumPassColumn oldLineCount walk columnIndex).map (·.table)) := by
  unfold enumPassColumn
  simp only
  split
  · exact .refl _
  · rename_i column inside
    obtain ⟨encodes, scans⟩ := clean column inside
    split
    · exact .refl _
    · have retained : Retains reads walk.table ((if column.type.isEnumLike then
            walk.table.encodeActiveColumn oldLineCount columnIndex column
          else if column.type = .any ∧ column.autoDetect then
            walk.table.scanCandidateColumn oldLineCount columnIndex column
          else some (walk.table, false)).map Prod.fst) := by
        split
        · rename_i enumLike
          exact encodeActiveColumn_retains (encodes enumLike)
        · split
          · rename_i candidate
            exact scanCandidateColumn_retains (scans candidate.1 candidate.2) column
          · exact .refl _
      generalize (if column.type.isEnumLike then
            walk.table.encodeActiveColumn oldLineCount columnIndex column
          else if column.type = .any ∧ column.autoDetect then
            walk.table.scanCandidateColumn oldLineCount columnIndex column
          else some (walk.table, false)) = outcome at retained ⊢
      -- The walk notes what to repaint, and passes the table on.
      rcases outcome with _ | ⟨table, repaint⟩
      · exact retained
      · cases repaint <;> exact retained

/-- The enumeration pass of a batch. -/
theorem runEnumPass_retains {oldLineCount : Nat} {walk : BackfillWalk}
    (clean : oldLineCount < walk.table.lines.length →
      CleanRun (enumPassColumn oldLineCount) (PassClean oldLineCount) walk
        (List.range walk.table.columns.length)) :
    Retains reads walk.table ((runEnumPass oldLineCount walk).map (·.table)) := by
  unfold runEnumPass
  split
  · exact .refl _
  · rename_i more
    exact .cleanRun (·.table) enumPassColumn_retains (clean (not_le.mp more))

end Batches

section Sweeps

/-- A tracker of all rows leads to no other promotion than one that stays with one dictionary. -/
def SettlesClean (table : LogTable) (columnIndex : Nat) (tracker : EnumCandidateTracker) : Prop :=
  tracker.killed = false → tracker.ready table.enumValueCap 2 = true →
    table.PromotionClean columnIndex

/-- A rescan of one column. -/
def RescanClean (table : LogTable) (columnIndex : Nat) : Prop :=
  ∀ trackerKey tracker, table.rescannedTracker columnIndex = some (trackerKey, tracker) →
    (table.setTracker trackerKey none).SettlesClean columnIndex tracker

/-- The sweep over one candidate. -/
def SweepClean (table : LogTable) (columnIndex : Nat) : Prop :=
  ∀ tracker, table.survivingTracker columnIndex = some tracker →
    table.SettlesClean columnIndex tracker

/-- The sweep over one dictionary column. -/
def HealthClean (table : LogTable) (columnIndex : Nat) : Prop :=
  ∀ column health, table.columns[columnIndex]? = some column → column.autoDetect = true →
    (column.keys.head?.bind table.keys.find).bind table.enumColumnHealth = some health →
      health.shouldDemote 1 = true →
      table.OwnsDictionary columnIndex

/-- The sweep at the end of a parse. -/
def FinalizeClean (table : LogTable) : Prop :=
  CleanRun finalizeCandidate SweepClean table (List.range table.columns.length) ∧
    ∀ swept, (List.range table.columns.length).foldlM finalizeCandidate table = some swept →
      CleanRun finalizeHealth HealthClean swept (List.range swept.columns.length)

/-- Settling a candidate. -/
theorem settleCandidate_retains {columnIndex : Nat} {tracker : EnumCandidateTracker}
    (clean : table.SettlesClean columnIndex tracker) :
    Retains reads table (table.settleCandidate columnIndex tracker) := by
  unfold settleCandidate
  -- The column gives up, is promoted, takes another type, or waits.
  split
  · exact setColumnType_retains table columnIndex .string
  · rename_i alive
    split
    · rename_i decided
      exact promoteColumnToEnum_retains (clean (by simpa using alive) decided)
    · split
      · exact setColumnType_retains table columnIndex _
      · exact .refl table

/-- A rescan of one column. -/
theorem rescanColumnForAutoDetection_retains {columnIndex : Nat}
    (clean : table.RescanClean columnIndex) :
    Retains reads table (table.rescanColumnForAutoDetection columnIndex) := by
  unfold rescanColumnForAutoDetection
  split
  · exact .refl table
  · rename_i trackerKey tracker scanned
    -- The tracker starts anew; no row is touched.
    have reset : Retains reads table (some (table.setTracker trackerKey none)) :=
      .of_same rfl rfl rfl
    exact reset.trans (settleCandidate_retains (clean trackerKey tracker scanned))

/-- The sweep over one candidate. -/
theorem finalizeCandidate_retains (table : LogTable) (columnIndex : Nat)
    (clean : table.SweepClean columnIndex) :
    Retains reads table (table.finalizeCandidate columnIndex) := by
  unfold finalizeCandidate
  split
  · exact .refl table
  · rename_i tracker surviving
    exact settleCandidate_retains (clean tracker surviving)

/-- The sweep over one dictionary column. -/
theorem finalizeHealth_retains (table : LogTable) (columnIndex : Nat)
    (clean : table.HealthClean columnIndex) :
    Retains reads table (table.finalizeHealth columnIndex) := by
  unfold finalizeHealth
  split
  · exact .refl table
  · -- Only an unhealthy dictionary of a detected column demotes.
    rename_i column inside
    split
    · exact .refl table
    · rename_i detected
      split
      · exact .refl table
      · rename_i health recorded
        split
        · rename_i poor
          simp only [not_or, Bool.not_eq_false] at detected
          exact demoteColumnFromEnum_retains (clean column health inside detected.2 recorded poor)
            false
        · exact .refl table

/-- The sweep at the end of a parse. -/
theorem finalizeAutoDetection_retains (clean : table.FinalizeClean) :
    Retains reads table table.finalizeAutoDetection := by
  obtain ⟨candidates, healths⟩ := clean
  -- The sweep over the candidates, one step after another.
  have swept := Retains.cleanRun id (fun state position clean => by
    rw [Option.map_id]
    exact @finalizeCandidate_retains reads state position clean) candidates
  rw [Option.map_id, id] at swept
  unfold finalizeAutoDetection
  split
  · rename_i failed
    rw [failed] at swept
    exact swept
  · -- The demotions start from the table that the sweep has left.
    rename_i middle reached
    rw [reached] at swept
    have settled := Retains.cleanRun id (fun state position clean => by
      rw [Option.map_id]
      exact @finalizeHealth_retains reads state position clean) (healths middle reached)
    rw [Option.map_id, id] at settled
    refine Retains.trans swept ?_
    split
    · rename_i failed
      rw [failed] at settled
      exact settled
    · rename_i last done
      rw [done] at settled
      exact Retains.trans settled (.of_same rfl rfl rfl)

end Sweeps

section Rows

/-- A time column of the table shows the key, and one of its formats reads the text as the
timestamp. -/
def ReadsTime (parse : TimestampParser) (table : LogTable) : Reads := fun id text microseconds =>
  ∃ column ∈ table.columns, column.type = .time ∧
    (∃ name ∈ column.keys, table.keys.find name = some id) ∧
    ∃ format ∈ column.parseFormats, parse format text = some microseconds

/-- Bytes that a promotion extracts are the text that the key shows. -/
theorem getValue_of_extracted {line : LogLine} {sources : List LineSource}
    (readable : line.Readable sources) {id : KeyId}
    {text : Bytes} (extracted : TimeColumnSpec.extractStringBytes sources line id = some text)
    (registry : EnumDictionaryRegistry) : line.getValue ⟨sources, registry⟩ id = .string text := by
  obtain ⟨slot, found, raw⟩ := TimeColumnSpec.extractStringBytes_raw extracted
  obtain ⟨peek, peeked⟩ := readable.peek_of_raw found raw
  have shows := (readable.peeked found peeked).2 registry
  obtain ⟨source, located, -, -⟩ := readable
  -- Both look at the bytes of the slot, and the extraction at no others.
  have same : peek = text := by
    unfold TimeColumnSpec.extractStringBytes at extracted
    unfold LogLine.peekStringView at peeked
    rw [found, located] at extracted
    rw [located] at peeked
    cases slot <;> simp_all [CompactLogValue.peekStringView, CompactLogValue.isRawString]
  exact same ▸ shows

/-- Promoting timestamps turns text under the keys of a time column into what the column reads, and
nothing else. -/
theorem backfillTimestampColumn_retains {parse : TimestampParser} {column : Column}
    (listed : column ∈ table.columns)
    (time : column.type = .time)
    (sees : ∀ id text microseconds, table.ReadsTime parse id text microseconds →
      reads id text microseconds) (rowBegin : Nat) :
    Retains reads table (some (table.backfillTimestampColumn parse column rowBegin)) := by
  intro healthy
  refine ⟨_, rfl, healthy_of_edits (table.backfillTimestampColumn_promotedBy parse column rowBegin)
    ?_ healthy.short⟩
  intro line member later promoted
  have whole := healthy.readable line member
  cases promoted with
  | kept => exact ⟨whole, healthy.resolved line member, fun id => .same _⟩
  | stamped keyId format text microseconds known inFormats extracted read =>
    have shows := getValue_of_extracted whole extracted table.enumDictionaries
    have slotAt (id : KeyId) :=
      LogLine.findCompact_setCompact line keyId id (.timestamp microseconds)
    obtain ⟨source, located, held, slots⟩ := whole
    refine ⟨⟨source, located, held, fun id other present => ?_⟩, fun id vid slot => ?_,
      fun id => ?_⟩
    · rw [slotAt] at present
      split at present
      · rw [← Option.some.inj present]
        trivial
      · exact slots id other present
    · rw [slotAt] at slot
      split at slot
      · cases slot
      · exact healthy.resolved line member id vid slot
    · by_cases same : id = keyId
      · -- The slot showed text, and shows the timestamp that a format reads from it.
        subst same
        have before : line.getValue table.context id = .string text := shows
        have after : (line.setCompact id (.timestamp microseconds)).getValue table.context id =
            .timestamp microseconds := by
          unfold LogLine.getValue
          rw [slotAt, if_pos rfl]
          simp [CompactLogValue.materialise]
        obtain ⟨name, inKeys, registered⟩ := List.mem_map.mp known
        rw [before]
        exact after ▸ .stamped text microseconds
          (sees id text microseconds ⟨column, listed, time, ⟨name, inKeys, registered⟩, format,
            inFormats, read⟩)
      · have unchanged : (line.setCompact keyId (.timestamp microseconds)).getValue
          table.context id =
            line.getValue table.context id := by
          unfold LogLine.getValue
          rw [slotAt, if_neg same]
          rfl
        exact unchanged ▸ .same _

/-- One time column of a batch. -/
theorem backfillColumn_retains {parse : TimestampParser} {walk : BackfillWalk} {column : Column}
    (listed : column ∈ walk.table.columns) (sees : ∀ id text microseconds,
      walk.table.ReadsTime parse id text microseconds → reads id text microseconds)
        (oldLineCount columnIndex : Nat) :
    Retains reads walk.table
      (some (backfillColumn parse oldLineCount walk columnIndex column).table) := by
  unfold backfillColumn
  -- Another column is passed over; a time column reads its new rows, or all of them once it has
  -- settled.
  split
  · exact .refl _
  · rename_i time
    simp only
    split
    · exact .refl _
    · split
      · -- A column that has just settled reads from the first row.
        have promoted : Retains reads walk.table
            (some (walk.table.backfillTimestampColumn parse column 0)) :=
          backfillTimestampColumn_retains listed (not_not.mp time) sees 0
        exact promoted.trans (.of_same rfl rfl rfl)
      · split
        · exact backfillTimestampColumn_retains listed (not_not.mp time) sees oldLineCount
        · exact .refl _

/-- The rows of a batch carry no ids, and all their bytes are in the sources. -/
def Fed (sources : List LineSource) (batch : StreamedBatch) : Prop :=
  ∀ line ∈ batch.lines, line.Readable sources ∧
    ∀ id vid, line.findCompact id ≠ some (.dictRef vid)

/-- A row with one field that is no id, whose bytes are in its source. -/
theorem ofField_fed {sources : List LineSource} {source lineId : Nat} {held : LineSource}
    {id : KeyId} {slot : CompactLogValue}
    (located : sources[source]? = some held) (holds : held.Holds lineId)
    (readable : slot.Readable held lineId)
    (raw : slot.isDictRef = false) :
    (LogLine.ofField source lineId id slot).Readable sources ∧
      ∀ other vid, (LogLine.ofField source lineId id slot).findCompact other ≠ some
        (.dictRef vid) := by
  -- The line has one slot.
  have slots : ∀ other found, (LogLine.ofField source lineId id slot).findCompact other =
      some found → found = slot := by
    intro other found inside
    simp only [LogLine.ofField, LogLine.findCompact, SortedMap.lookup, SortedMap.lookupIn] at inside
    split_ifs at inside
    exact (Option.some.inj inside).symm
  refine ⟨⟨held, located, holds, fun other found inside => ?_⟩, fun other vid inside => ?_⟩
  · rw [slots other found inside]
    exact readable
  · rw [← slots other _ inside] at raw
    cases raw

/-- The last file gets offsets and spans, which no slot reads. -/
theorem modifyBackFile_extends {change : LogFile → LogFile}
    (same : ∀ file, (change file).data = file.data ∧ (change file).ownedStrings = file.ownedStrings)
    (sources : List LineSource) :
    SourcesExtend sources ((modifyBackFile change sources).getD sources) := by
  cases changed : modifyBackFile change sources with
  | none => exact .refl sources
  | some result =>
    show SourcesExtend sources result
    -- Only one source of the list is another one, and it is the same file but for its line table.
    induction sources generalizing result with
    | nil => simp [modifyBackFile] at changed
    | cons source rest ih =>
      unfold modifyBackFile at changed
      split at changed
      · rename_i inner later
        rw [← Option.some.inj changed]
        intro position held located
        cases position with
        | zero => exact ⟨held, located, .refl held⟩
        | succ position => exact ih inner later position held located
      · split at changed
        · rename_i file
          rw [← Option.some.inj changed]
          intro position held located
          cases position with
          | zero =>
            obtain rfl := Option.some.inj located
            exact ⟨_, rfl, LineSource.extends_file [] (same file).1 (by simp [(same file).2])⟩
          | succ position => exact ⟨held, located, .refl held⟩
        · contradiction

/-- Offsets and spans do not change the bytes of a file. -/
theorem registered_bytes (batch : StreamedBatch) (file : LogFile) :
    (batch.multiLineSpans.foldl
      (fun file span => file.registerMultiLineRecord span.headerLineId span.lastLineId)
      (file.appendLineOffsets batch.localLineOffsets)).data = file.data ∧
    (batch.multiLineSpans.foldl
      (fun file span => file.registerMultiLineRecord span.headerLineId span.lastLineId)
      (file.appendLineOffsets batch.localLineOffsets)).ownedStrings = file.ownedStrings := by
  refine foldl_invariant (fun (changed : LogFile) => changed.data = file.data ∧
    changed.ownedStrings = file.ownedStrings) ?_ ?_
  · -- A span is registered beside the bytes.
    intro changed span _ same
    unfold LogFile.registerMultiLineRecord
    repeat' split
    all_goals exact same
  · exact ⟨rfl, rfl⟩

/-- The rows of a batch join the table, each with the values it came with. -/
theorem appendLines_retains {batch : StreamedBatch} (fed : Fed table.sources batch) :
    Retains reads table (some (table.appendLines batch)) := by
  intro healthy
  -- The bytes of the new rows stand behind the old ones in their source.
  have extended := modifyBackFile_extends (registered_bytes batch) table.sources
  refine ⟨_, rfl, ⟨?_, ?_, healthy.short⟩, fun row line held => ⟨line, ?_, fun id => ?_⟩⟩
  · -- Old rows read what they read before; new rows bring their own bytes.
    intro line listed
    rcases List.mem_append.mp listed with old | new
    · exact ((healthy.readable line old).extends extended).1
    · exact ((fed line new).1.extends extended).1
  · -- A new row holds no id, so only old ones are resolved.
    intro line listed id vid slot
    rcases List.mem_append.mp listed with old | new
    · exact healthy.resolved line old id vid slot
    · exact absurd slot ((fed line new).2 id vid)
  · -- The new rows stand behind the old ones, which keep their places and values.
    show (table.lines ++ batch.lines)[row]? = some line
    rw [List.getElem?_append_left (List.getElem?_eq_some_iff.mp held).1, held]
  · have same := (@Healthy.getValue_grown table (table.appendLines batch) healthy extended line line
      (List.mem_of_getElem? held) rfl rfl id rfl fun _ dict _ found => ⟨dict, found, .refl dict⟩).1
    exact same ▸ .same _

/-- The table of a batch before the timestamps of its rows are looked at. -/
def withRows (table : LogTable) (batch : StreamedBatch) : LogTable :=
  let table :=
    { table with
      lastBackfillRange := none
      lastBatchDemotedKeys := []
      pendingLevelBubbleKeys := []
      configuration := table.configuration.appendKeys batch.newKeys }
  (table.appendLines batch).refreshColumnKeyIdsForKeys batch.newKeys

/-- New columns and cached ids are none of the rows' business. -/
theorem withRows_rows (table : LogTable) (batch : StreamedBatch) :
    (table.withRows batch).lines = (table.appendLines batch).lines ∧
      (table.withRows batch).enumDictionaries = (table.appendLines batch).enumDictionaries ∧
      (table.withRows batch).sources = (table.appendLines batch).sources := by
  unfold withRows refreshColumnKeyIdsForKeys
  simp only
  split <;> exact ⟨rfl, rfl, rfl⟩

/-- New columns and rows keep all values. -/
theorem withRows_retains {batch : StreamedBatch} (fed : Fed table.sources batch) :
    Retains reads table (some (table.withRows batch)) := by
  obtain ⟨lines, registry, sources⟩ := table.withRows_rows batch
  exact (appendLines_retains fed).trans (.of_same lines registry sources)

/-- The rows of a batch stand behind the old ones, with the values they came with. -/
theorem withRows_shows {batch : StreamedBatch} (fed : Fed table.sources batch) {position : Nat}
    {line : LogLine}
    (held : batch.lines[position]? = some line) :
    (table.withRows batch).lines[table.lines.length + position]? = some line ∧
      ∀ id, line.getValue (table.withRows batch).context id = line.getValue table.context id := by
  obtain ⟨lines, registry, sources⟩ := table.withRows_rows batch
  refine ⟨?_, fun id => ?_⟩
  · have lines : (table.withRows batch).lines = table.lines ++ batch.lines := lines
    rw [lines, List.getElem?_append_right (Nat.le_add_right _ _), Nat.add_sub_cancel_left, held]
  · -- The slots of the batch are raw, so they read the same once the source has grown.
    obtain ⟨readable, raw⟩ := fed line (List.mem_of_getElem? held)
    unfold LogTable.context
    rw [registry, sources]
    exact LogLine.getValue_grown readable (modifyBackFile_extends (registered_bytes batch) _)
      rfl rfl rfl
      fun vid slot => absurd slot (raw id vid)

/-- The time columns of a batch change no column and register no key. -/
theorem appendBatchRows_frame (parse : TimestampParser) (table : LogTable) (batch : StreamedBatch) :
    (table.appendBatchRows parse batch).table.columns = (table.withRows batch).columns ∧
      (table.appendBatchRows parse batch).table.keys = (table.withRows batch).keys := by
  unfold appendBatchRows
  refine foldl_invariant (fun walk : BackfillWalk =>
    walk.table.columns = (table.withRows batch).columns ∧
    walk.table.keys = (table.withRows batch).keys) ?_ ⟨rfl, rfl⟩
  -- Column by column; parsing times changes neither columns nor keys.
  rintro walk ⟨column, columnIndex⟩ - ⟨columns, keys⟩
  obtain ⟨sameKeys, -, configuration⟩ :=
    backfillColumn_frame parse table.lines.length walk columnIndex column
  exact ⟨(congrArg LogConfiguration.columns configuration).trans columns, sameKeys.trans keys⟩

/-- The time columns of a batch turn text into what they read. -/
theorem appendBatchRows_retains (parse : TimestampParser) (table : LogTable)
    (batch : StreamedBatch) :
    Retains ((table.appendBatchRows parse batch).table.ReadsTime parse) (table.withRows batch)
      (some (table.appendBatchRows parse batch).table) := by
  obtain ⟨finalColumns, finalKeys⟩ := table.appendBatchRows_frame parse batch
  -- Every table on the way has the columns and keys of the last one.
  have walked : ∀ (entries : List (Column × Nat)) (walk : BackfillWalk),
      (∀ entry ∈ entries, entry.1 ∈ (table.withRows batch).columns) →
      walk.table.columns = (table.withRows batch).columns →
        walk.table.keys = (table.withRows batch).keys →
      Retains ((table.appendBatchRows parse batch).table.ReadsTime parse) walk.table
        (some (entries.foldl
        (fun walk entry => backfillColumn parse table.lines.length walk entry.2 entry.1)
          walk).table) := by
    intro entries
    induction entries with
    | nil => exact fun walk _ _ _ => .refl _
    | cons entry rest ih =>
      intro walk listed columns keys
      obtain ⟨sameKeys, -, configuration⟩ :=
        backfillColumn_frame parse table.lines.length walk entry.2 entry.1
      have first := @backfillColumn_retains
        ((table.appendBatchRows parse batch).table.ReadsTime parse) parse walk entry.1
        (columns ▸ listed entry List.mem_cons_self) (fun id text microseconds read => by
          unfold ReadsTime at read ⊢
          rw [finalColumns, finalKeys, ← columns, ← keys]
          exact read) table.lines.length entry.2
      exact first.trans (ih _ (fun other member => listed other (List.mem_cons_of_mem entry member))
        ((congrArg LogConfiguration.columns configuration).trans columns) (sameKeys.trans keys))
  refine walked _ ⟨table.withRows batch, none, none⟩ (fun entry member => ?_) rfl rfl
  exact (List.mem_zipIdx' member).2 ▸ List.getElem_mem _

end Rows

end LogTable

end Loglib
