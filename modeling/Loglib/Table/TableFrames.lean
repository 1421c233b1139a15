import Loglib.Basic.Runs
import Loglib.Table.EnumSteps
import Loglib.Table.Operations

/-! What the enumeration work leaves alone: whose line a row is, the texts of the sources, the keys
and formats of the columns, and all timestamps. -/

namespace Loglib

/-- A slot that the enumeration work may write. -/
def CompactLogValue.isDictionaryWork : CompactLogValue → Bool
  | .dictRef _ => true
  | .ownedString _ _ => true
  | .monostate => true
  | _ => false

/-- Whose line a row is: the position of its source, and its number there. -/
abbrev LineOwner := Nat × Nat

/-- The owner of a line. -/
def LogLine.owner (line : LogLine) : LineOwner := (line.source, line.lineId)

/-- The owners of the rows. -/
def LogTable.owners (table : LogTable) : List LineOwner := table.lines.map LogLine.owner

/-- The line after some of its slots were written with allowed ones. -/
inductive LogLine.Edited (allowed : CompactLogValue → Prop) (line : LogLine) : LogLine → Prop where
  | kept : Edited allowed line line
  | set (later : LogLine) (id : KeyId) (slot : CompactLogValue) (edited : Edited allowed line later)
      (permitted : allowed slot) :
      Edited allowed line (later.setCompact id slot)

namespace LogLine.Edited

variable {allowed : CompactLogValue → Prop} {line later : LogLine}

/-- Edits follow one another. -/
theorem trans {last : LogLine} (first : line.Edited allowed later)
    (second : later.Edited allowed last) :
    line.Edited allowed last := by
  induction second with
  | kept => exact first
  | set middle id slot _ permitted ih => exact .set middle id slot ih permitted

/-- More slots may be allowed. -/
theorem mono {more : CompactLogValue → Prop} (edited : line.Edited allowed later)
    (weaker : ∀ slot, allowed slot → more slot) :
    line.Edited more later := by
  induction edited with
  | kept => exact .kept
  | set middle id slot _ permitted ih => exact .set middle id slot ih (weaker slot permitted)

/-- The line stays the line of its source. -/
theorem source_lineId (edited : line.Edited allowed later) :
    later.source = line.source ∧ later.lineId = line.lineId := by
  induction edited with
  | kept => exact ⟨rfl, rfl⟩
  | set middle id slot _ permitted ih => exact ih

end LogLine.Edited

/-- The source after some decoded bytes were appended for its lines. -/
inductive LineSource.Annotated (source : LineSource) : LineSource → Prop where
  | kept : Annotated source source
  | appended (later grown : LineSource) (lineId : Nat) (text : Bytes) (offset : Nat)
      (annotated : Annotated source later)
      (done : later.appendOwnedBytes lineId text = some (grown, offset)) : Annotated source grown

namespace LineSource.Annotated

variable {source later : LineSource}

/-- Annotations follow one another. -/
theorem trans {last : LineSource} (first : source.Annotated later) (second : later.Annotated last) :
    source.Annotated last := by
  induction second with
  | kept => exact first
  | appended middle grown lineId text offset _ done ih =>
    exact .appended middle grown lineId text offset ih done

end LineSource.Annotated

section Lists

variable {α : Type*} {R : α → α → Prop}

/-- Related lists, related again. -/
theorem forall₂_trans (compose : ∀ a b c, R a b → R b c → R a c) {first second third : List α}
    (left : List.Forall₂ R first second) (right : List.Forall₂ R second third) :
    List.Forall₂ R first third := by
  induction left generalizing third with
  | nil => exact right
  | cons head _ ih =>
    cases right with
    | cons next rest => exact .cons (compose _ _ _ head next) (ih rest)

/-- A list with one item changed. -/
theorem forall₂_modify {items : List α} {position : Nat} {edit : α → α} (same : ∀ item, R item item)
    (edited : ∀ item, items[position]? = some item → R item (edit item)) :
    List.Forall₂ R items (items.modify position edit) := by
  induction items generalizing position with
  | nil => simp
  | cons item rest ih =>
    -- The edited item is the first one, or one of the rest.
    cases position with
    | zero =>
      rw [List.modify_zero_cons]
      exact .cons (edited item rfl) (List.forall₂_same.mpr fun item _ => same item)
    | succ position =>
      rw [List.modify_succ_cons]
      exact .cons (same item) (ih fun item found => edited item (by simpa using found))

/-- A list with one item replaced. -/
theorem forall₂_set {items : List α} {position : Nat} {item : α} (same : ∀ item, R item item)
    (replaced : ∀ old, items[position]? = some old → R old item) :
    List.Forall₂ R items (items.set position item) := by
  induction items generalizing position with
  | nil => simp
  | cons old rest ih =>
    -- The replaced item is the first one, or one of the rest.
    cases position with
    | zero => exact .cons (replaced old rfl) (List.forall₂_same.mpr fun item _ => same item)
    | succ position =>
      exact .cons (same old) (ih fun old found => replaced old (by simpa using found))

end Lists

/-- The column keeps its names, formats and levels, and stays a time column or none. -/
structure Column.Retyped (before after : Column) : Prop where
  keys : after.keys = before.keys
  levelMapping : after.levelMapping = before.levelMapping
  parseFormats : after.parseFormats = before.parseFormats
  autoDetect : after.autoDetect = before.autoDetect
  time : after.type = .time ↔ before.type = .time

namespace LogTable

/-- What the enumeration work leaves alone of a table. -/
structure EnumFrame (old new : LogTable) : Prop where
  rows : List.Forall₂ (LogLine.Edited (·.isDictionaryWork = true)) old.lines new.lines
  sources : List.Forall₂ LineSource.Annotated old.sources new.sources
  columns : List.Forall₂ Column.Retyped old.columns new.columns
  keys : old.keys.Grows new.keys
  columnKeyIds : new.columnKeyIds = old.columnKeyIds
  stageB : new.stageBSnapshotTimeKeys = old.stageBSnapshotTimeKeys
  postSnapshot : new.postSnapshotTimeKeys = old.postSnapshotTimeKeys
  backfillRange : new.lastBackfillRange = old.lastBackfillRange

namespace EnumFrame

/-- A table keeps what it has. -/
@[refl] theorem refl (table : LogTable) : EnumFrame table table :=
  ⟨List.forall₂_same.mpr fun _ _ => .kept, List.forall₂_same.mpr fun _ _ => .kept,
    List.forall₂_same.mpr fun _ _ => ⟨rfl, rfl, rfl, rfl, Iff.rfl⟩, .refl _, rfl, rfl, rfl, rfl⟩

/-- Frames compose. -/
theorem trans {first second third : LogTable} (left : EnumFrame first second)
    (right : EnumFrame second third) :
    EnumFrame first third where
  rows := forall₂_trans (fun _ _ _ first second => first.trans second) left.rows right.rows
  sources := forall₂_trans (fun _ _ _ first second => first.trans second) left.sources right.sources
  -- The column relation runs backwards, so its parts compose the other way round.
  columns := forall₂_trans (fun _ _ _ before after => ⟨after.keys.trans before.keys,
    after.levelMapping.trans before.levelMapping, after.parseFormats.trans before.parseFormats,
    after.autoDetect.trans before.autoDetect, after.time.trans before.time⟩) left.columns
      right.columns
  keys := left.keys.trans right.keys
  columnKeyIds := right.columnKeyIds.trans left.columnKeyIds
  stageB := right.stageB.trans left.stageB
  postSnapshot := right.postSnapshot.trans left.postSnapshot
  backfillRange := right.backfillRange.trans left.backfillRange

/-- What touches rows alone. -/
theorem of_rows {old new : LogTable}
    (rows : List.Forall₂ (LogLine.Edited (·.isDictionaryWork = true)) old.lines new.lines)
    (sources : new.sources = old.sources) (columns : new.columns = old.columns)
    (keys : new.keys = old.keys)
    (columnKeyIds : new.columnKeyIds = old.columnKeyIds)
    (stageB : new.stageBSnapshotTimeKeys = old.stageBSnapshotTimeKeys)
    (postSnapshot : new.postSnapshotTimeKeys = old.postSnapshotTimeKeys)
    (backfillRange : new.lastBackfillRange = old.lastBackfillRange) : EnumFrame old new := by
  refine ⟨rows, ?_, ?_, ?_, columnKeyIds, stageB, postSnapshot, backfillRange⟩
  · rw [sources]
    exact List.forall₂_same.mpr fun _ _ => .kept
  · rw [columns]
    exact List.forall₂_same.mpr fun _ _ => ⟨rfl, rfl, rfl, rfl, Iff.rfl⟩
  · rw [keys]

end EnumFrame

section Steps

variable {table : LogTable}

/-- A column that is not a time column takes a type that is not the time type. -/
theorem enumFrame_setColumnType {columnIndex : Nat} {type : ColumnType}
    (plain : ∀ column, table.columns[columnIndex]? = some column → column.type ≠ .time)
    (other : type ≠ .time) :
    EnumFrame table (table.setColumnType columnIndex type) := by
  -- Only the type of the one column changes, and it is no Time column before or after.
  have retyped : List.Forall₂ Column.Retyped table.columns
      (table.setColumnType columnIndex type).columns := by
    apply forall₂_modify
    · exact fun column => ⟨rfl, rfl, rfl, rfl, Iff.rfl⟩
    · exact fun column found => ⟨rfl, rfl, rfl, rfl, iff_of_false other (plain column found)⟩
  exact ⟨List.forall₂_same.mpr fun _ _ => .kept, List.forall₂_same.mpr fun _ _ => .kept, retyped,
    .refl _, rfl, rfl, rfl,
    rfl⟩

/-- Trackers are no part of the frame. -/
theorem enumFrame_setTracker (table : LogTable) (trackerKey : KeyId)
    (tracker : Option EnumCandidateTracker) :
    EnumFrame table (table.setTracker trackerKey tracker) :=
  .of_rows (List.forall₂_same.mpr fun _ _ => .kept) rfl rfl rfl rfl rfl rfl rfl

/-- Encoding writes ids. -/
theorem encodeRow_edited (sources : List LineSource) (maxLen : Nat) (dict : EnumDictionary)
    (line : LogLine)
    (ids : List KeyId) (sawLong sawWrongType : Bool) :
    line.Edited (·.isDictionaryWork = true)
      (encodeRow sources maxLen dict line ids sawLong sawWrongType).1 := by
  -- The induction is on the ids that are left, whose first slot decides.
  induction ids generalizing sawLong sawWrongType with
  | nil => exact .kept
  | cons id rest ih =>
    unfold encodeRow
    split
    · exact ih _ _
    · split
      · exact .kept
      · split
        · exact ih _ _
        · split
          · exact ih _ _
          · split
            · exact .kept
            · exact .set line id _ .kept rfl

/-- Encoding rows edits each of them. -/
theorem encodeRows_edited (sources : List LineSource) (maxLen : Nat) (aliasKeys : List KeyId)
    (dict : EnumDictionary)
    (health : EnumColumnHealth) (lines : List LogLine) :
    List.Forall₂ (LogLine.Edited (·.isDictionaryWork = true)) lines
      (encodeRows sources maxLen aliasKeys dict health lines).lines := by
  induction lines generalizing dict health with
  | nil => exact .nil
  | cons line rest ih =>
    have first := encodeRow_edited sources maxLen dict line aliasKeys false false
    -- A row that is turned away ends the pass, and the rows behind it stay as they are.
    unfold encodeRows
    split
    · rename_i later filled encoded
      rw [encoded] at first
      exact .cons first (List.forall₂_same.mpr fun _ _ => .kept)
    · rename_i later filled outcome _ encoded
      rw [encoded] at first
      exact .cons first (ih _ _)

/-- Encoding a column. -/
theorem enumFrame_encodeColumnRange (table : LogTable) (aliasKeys : List KeyId) (rowBegin : Nat)
    (healthKey : KeyId) :
    EnumFrame table (table.encodeColumnRange aliasKeys rowBegin healthKey).1 := by
  cases aliasKeys with
  | nil => exact .refl table
  | cons canonical aliases =>
    refine .of_rows ?_ rfl rfl rfl rfl rfl rfl rfl
    -- The rows in front of the range are not touched.
    have front : List.Forall₂ (LogLine.Edited (·.isDictionaryWork = true))
      (table.lines.take rowBegin)
        (table.lines.take rowBegin) := List.forall₂_same.mpr fun _ _ => .kept
    have whole := List.rel_append front (encodeRows_edited table.sources table.enumValueMaxLen
      (canonical :: aliases)
      (((table.enumDictionaries.getOrInsert canonical table.enumValueCap).find canonical).getD
        (.ofCap table.enumValueCap))
      ((table.enumColumnHealth healthKey).getD .empty) (table.lines.drop rowBegin))
    simp only [List.take_append_drop] at whole
    exact whole

/-- Ranks are no part of the frame. -/
theorem enumFrame_refreshLevelRankCache (table : LogTable) (columnIndex : Nat) :
    EnumFrame table (table.refreshLevelRankCache columnIndex) := by
  unfold refreshLevelRankCache
  repeat' split
  all_goals exact .of_rows (List.forall₂_same.mpr fun _ _ => .kept) rfl rfl rfl rfl rfl rfl rfl

/-- Promotion to a level column. -/
theorem enumFrame_maybePromoteToLevel (table : LogTable) (columnIndex : Nat) :
    EnumFrame table (table.maybePromoteToLevel columnIndex) := by
  rcases table.maybePromoteToLevel_cases columnIndex with
    same | ⟨column, canonical, inside, enumeration, -, -, -, same⟩
  · rw [same]
  · rw [same]
    have typed : EnumFrame table (table.setColumnType columnIndex .level) := by
      apply enumFrame_setColumnType
      · intro other found
        rw [← Option.some.inj (inside.symm.trans found), enumeration]
        exact ColumnType.noConfusion
      · exact ColumnType.noConfusion
    have ranked := typed.trans (enumFrame_refreshLevelRankCache _ columnIndex)
    -- The rank cache is the one field that differs, and a frame does not speak of it.
    exact ⟨ranked.rows, ranked.sources, ranked.columns, ranked.keys, ranked.columnKeyIds,
      ranked.stageB,
      ranked.postSnapshot, ranked.backfillRange⟩

/-- Turning one slot back writes text or nothing, and appends the text to its source. -/
theorem demoteSlot_frame {dict : Option EnumDictionary} {id : KeyId}
    {sources later : List LineSource} {line after : LogLine}
    (done : demoteSlot dict id sources line = some (later, after)) :
    List.Forall₂ LineSource.Annotated sources later ∧ line.Edited
      (·.isDictionaryWork = true) after := by
  have same : List.Forall₂ LineSource.Annotated sources sources :=
    List.forall₂_same.mpr fun _ _ => .kept
  unfold demoteSlot at done
  split at done
  · rename_i vid found
    dsimp only at done
    split at done
    · obtain ⟨rfl, rfl⟩ := Prod.mk.inj (Option.some.inj done)
      exact ⟨same, .set line id _ .kept rfl⟩
    · rename_i source located
      split at done
      · exact absurd done (Option.some_ne_none _).symm
      · rename_i grown offset appended
        obtain ⟨rfl, rfl⟩ := Prod.mk.inj (Option.some.inj done)
        -- Only the source of the line grows.
        have grows : List.Forall₂ LineSource.Annotated sources (sources.set line.source grown) := by
          apply forall₂_set
          · exact fun _ => .kept
          · intro old held
            obtain rfl := Option.some.inj (held.symm.trans located)
            exact .appended old grown _ _ offset .kept appended
        exact ⟨grows, .set line id _ .kept rfl⟩
  · obtain ⟨rfl, rfl⟩ := Prod.mk.inj (Option.some.inj done)
    exact ⟨same, .kept⟩

/-- Turning a row back, key by key. -/
theorem demoteLine_frame {dict : Option EnumDictionary} {ids : List KeyId}
    {sources later : List LineSource} {line after : LogLine}
    (done : demoteLine dict ids sources line = some (later, after)) :
    List.Forall₂ LineSource.Annotated sources later ∧ line.Edited
      (·.isDictionaryWork = true) after := by
  induction ids generalizing sources line with
  | nil =>
    obtain ⟨rfl, rfl⟩ := Prod.mk.inj (Option.some.inj done)
    exact ⟨List.forall₂_same.mpr fun _ _ => .kept, .kept⟩
  | cons id rest ih =>
    unfold demoteLine at done
    -- An id whose slot is not a reference leaves the line alone; the others edit one slot each.
    split at done
    · exact absurd done (Option.some_ne_none _).symm
    · rename_i middle between first
      obtain ⟨grown, edited⟩ := demoteSlot_frame first
      obtain ⟨more, rest⟩ := ih done
      exact ⟨forall₂_trans (fun _ _ _ first second => first.trans second) grown more,
        edited.trans rest⟩

/-- Turning all rows back. -/
theorem demoteLines_frame {dict : Option EnumDictionary} {ids : List KeyId}
    {sources later : List LineSource}
    {lines after : List LogLine} (done : demoteLines dict ids sources lines = some (later, after)) :
    List.Forall₂ LineSource.Annotated sources later ∧
      List.Forall₂ (LogLine.Edited (·.isDictionaryWork = true)) lines after := by
  induction lines generalizing sources later after with
  | nil =>
    obtain ⟨rfl, rfl⟩ := Prod.mk.inj (Option.some.inj done)
    exact ⟨List.forall₂_same.mpr fun _ _ => .kept, .nil⟩
  -- One line is demoted after the other, and each keeps its source's bytes.
  | cons line rest ih =>
    unfold demoteLines at done
    split at done
    · exact absurd done (Option.some_ne_none _).symm
    · rename_i middle between first
      split at done
      · exact absurd done (Option.some_ne_none _).symm
      · rename_i final others remaining
        obtain ⟨rfl, rfl⟩ := Prod.mk.inj (Option.some.inj done)
        obtain ⟨grown, edited⟩ := demoteLine_frame first
        obtain ⟨more, edits⟩ := ih remaining
        exact ⟨forall₂_trans (fun _ _ _ first second => first.trans second) grown more,
          .cons edited edits⟩

/-- A demotion. -/
theorem enumFrame_demoteColumnFromEnum {next : LogTable} {columnIndex : Nat} {recordForBatch : Bool}
    (done : table.demoteColumnFromEnum columnIndex recordForBatch = some next) :
    EnumFrame table next := by
  rcases demoteColumnFromEnum_cases done with ⟨same, -⟩ | ⟨column, inside, enumLike, retyped⟩
  · rw [same]
  · -- The column has been an enumeration, so it does not stop being a time column.
    have typed : EnumFrame table (table.setColumnType columnIndex .string) := by
      apply enumFrame_setColumnType
      · intro other found time
        rw [← Option.some.inj (inside.symm.trans found)] at time
        rw [time] at enumLike
        exact absurd enumLike Bool.false_ne_true
      · exact ColumnType.noConfusion
    -- Without a dictionary nothing else changes; with one, its ids go from the lines.
    rcases retyped with ⟨-, same⟩ | ⟨canonical, aliases, sources, lines, -, converted, same⟩
    · rw [same]
      exact typed
    · rw [same]
      obtain ⟨grown, edits⟩ := demoteLines_frame converted
      exact ⟨edits, grown, typed.columns, typed.keys, rfl, rfl, rfl, rfl⟩

/-- Wiring keys may register some. -/
theorem enumFrame_wireColumnKeys (table : LogTable) (names : List Bytes) :
    EnumFrame table (table.wireColumnKeys names).1 := by
  cases names with
  | nil => exact .refl table
  | cons key rest =>
    have rows : List.Forall₂ (LogLine.Edited (·.isDictionaryWork = true)) table.lines table.lines :=
      List.forall₂_same.mpr fun _ _ => .kept
    have sources : List.Forall₂ LineSource.Annotated table.sources table.sources :=
      List.forall₂_same.mpr fun _ _ => .kept
    have columns : List.Forall₂ Column.Retyped table.columns table.columns :=
      List.forall₂_same.mpr fun _ _ => ⟨rfl, rfl, rfl, rfl, Iff.rfl⟩
    -- Wiring a name registers its key and touches nothing else.
    unfold wireColumnKeys
    apply foldl_invariant (fun wired : LogTable => EnumFrame table wired)
    · intro wired alias_ _ frame
      exact ⟨frame.rows, frame.sources, frame.columns,
        frame.keys.trans (wired.keys.getOrInsert_grows alias_),
        frame.columnKeyIds, frame.stageB, frame.postSnapshot, frame.backfillRange⟩
    · exact ⟨rows, sources, columns, table.keys.getOrInsert_grows key, rfl, rfl, rfl, rfl⟩

/-- A piece of the enumeration work stays in the frame. -/
theorem enumFrame_of_step {old new : LogTable} (step : EnumStep old new) : EnumFrame old new := by
  -- One frame a step.
  cases step with
  | retype columnIndex type plain other => exact enumFrame_setColumnType plain other
  | track trackerKey tracker => exact enumFrame_setTracker old trackerKey tracker
  | wire names => exact enumFrame_wireColumnKeys old names
  | encode aliasKeys rowBegin healthKey =>
    exact enumFrame_encodeColumnRange old aliasKeys rowBegin healthKey
  | rank columnIndex => exact enumFrame_refreshLevelRankCache old columnIndex
  | level columnIndex => exact enumFrame_maybePromoteToLevel old columnIndex
  | demote columnIndex recordForBatch done => exact enumFrame_demoteColumnFromEnum done

/-- The enumeration pass of a batch stays in the frame. -/
theorem enumFrame_runEnumPass {oldLineCount : Nat} {walk next : BackfillWalk}
    (done : runEnumPass oldLineCount walk = some next) : EnumFrame walk.table next.table :=
  (steps_runEnumPass done).keeps .refl .trans enumFrame_of_step

/-- What every pass over a table leaves alone: whose line a row is, and the texts of the sources. -/
structure RowFrame (old new : LogTable) : Prop where
  rows : List.Forall₂ (LogLine.Edited fun _ => True) old.lines new.lines
  sources : List.Forall₂ LineSource.Annotated old.sources new.sources

namespace RowFrame

/-- A table keeps what it has. -/
@[refl] theorem refl (table : LogTable) : RowFrame table table :=
  ⟨List.forall₂_same.mpr fun _ _ => .kept, List.forall₂_same.mpr fun _ _ => .kept⟩

/-- Frames compose. -/
theorem trans {first second third : LogTable} (left : RowFrame first second)
    (right : RowFrame second third) :
    RowFrame first third where
  rows := forall₂_trans (fun _ _ _ first second => first.trans second) left.rows right.rows
  sources := forall₂_trans (fun _ _ _ first second => first.trans second) left.sources right.sources

/-- The enumeration work stays in the frame. -/
theorem of_enum {old new : LogTable} (frame : EnumFrame old new) : RowFrame old new :=
  ⟨frame.rows.imp fun _ _ edited => edited.mono fun _ _ => trivial, frame.sources⟩

/-- So does what touches neither rows nor sources. -/
theorem of_eq {old new : LogTable} (rows : new.lines = old.lines)
    (sources : new.sources = old.sources) :
    RowFrame old new := by
  refine ⟨?_, ?_⟩
  · rw [rows]
    exact List.forall₂_same.mpr fun _ _ => .kept
  · rw [sources]
    exact List.forall₂_same.mpr fun _ _ => .kept

/-- The rows stay the lines of their sources. -/
theorem owners {old new : LogTable} (frame : RowFrame old new) : new.owners = old.owners := by
  have rows := frame.rows
  unfold LogTable.owners
  generalize old.lines = before, new.lines = after at rows
  -- The induction is on the rows, each of which is an edit of the old one.
  induction rows with
  | nil => rfl
  | cons edited _ ih =>
    obtain ⟨source, lineId⟩ := edited.source_lineId
    simp only [List.map_cons, LogLine.owner, source, lineId, ih]

end RowFrame

/-- Promoting timestamps stays in the frame. -/
theorem rowFrame_backfillTimestampColumn (parse : TimestampParser) (table : LogTable)
    (column : Column) (rowBegin : Nat) :
    RowFrame table (table.backfillTimestampColumn parse column rowBegin) := by
  refine ⟨?_, List.forall₂_same.mpr fun _ _ => .kept⟩
  apply (table.backfillTimestampColumn_promoted parse column rowBegin).imp
  intro line after promoted
  cases promoted with
  | kept => exact .kept
  | stamped keyId slot microseconds found raw => exact .set line keyId _ .kept trivial

/-- The walk over the time columns stays in the frame. -/
theorem rowFrame_backfillColumn (parse : TimestampParser) (oldLineCount : Nat) (walk : BackfillWalk)
    (columnIndex : Nat)
    (column : Column) : RowFrame walk.table
    (backfillColumn parse oldLineCount walk columnIndex column).table := by
  -- A column is parsed from the first row when it has just been promoted, and from the batch's
  have promoted (rowBegin : Nat) :=
    rowFrame_backfillTimestampColumn parse walk.table column rowBegin
  unfold backfillColumn
  split
  · exact .refl _
  · simp only
    split
    · exact .refl _
    · split
      · exact ⟨(promoted 0).rows, (promoted 0).sources⟩
      · split
        · exact promoted oldLineCount
        · exact .refl _

/-- A batch adds its rows and offsets, and the passes after that stay in the frame. -/
theorem rowFrame_appendBatch {parse : TimestampParser} {batch : StreamedBatch} {next : LogTable}
    (done : table.appendBatch parse batch = some next) :
    RowFrame (table.appendLines batch) next := by
  obtain ⟨walk, passed, same⟩ := Option.map_eq_some_iff.mp done
  -- The time columns first, then the enum pass over what they leave.
  have rows : RowFrame (table.appendLines batch) (table.appendBatchRows parse batch).table := by
    unfold appendBatchRows
    apply foldl_invariant (fun walk : BackfillWalk => RowFrame (table.appendLines batch) walk.table)
    · rintro walk ⟨column, columnIndex⟩ - frame
      exact frame.trans (rowFrame_backfillColumn parse _ walk columnIndex column)
    · unfold refreshColumnKeyIdsForKeys
      split
      · exact .of_eq rfl rfl
      · exact .of_eq rfl rfl
  have whole := rows.trans (.of_enum (enumFrame_runEnumPass passed))
  rw [← same]
  exact ⟨whole.rows, whole.sources⟩

/-- Setting up dictionaries and ranks for the configured columns changes no row. -/
theorem rowFrame_refreshSnapshotEnumKeys (begun : LogTable) :
    RowFrame begun begun.refreshSnapshotEnumKeys := by
  unfold refreshSnapshotEnumKeys
  apply foldl_invariant (fun next : LogTable => RowFrame begun next)
  · intro next columnIndex _ frame
    unfold refreshSnapshotEnumColumn
    -- Dictionaries and ranks are set up, which changes no row.
    split
    · exact frame
    · split
      · exact frame.trans ((RowFrame.of_enum (enumFrame_wireColumnKeys next _)).trans
          (.of_enum (enumFrame_refreshLevelRankCache _ columnIndex)))
      · exact frame
  · exact .of_eq rfl rfl

/-- A new stream begins without rows, and with its source alone. -/
theorem rowFrame_beginStreaming (table : LogTable) (source : Option LineSource) :
    RowFrame { table with lines := [], sources := source.toList }
      (table.beginStreaming source) := by
  -- The time keys of the configuration are collected, and rows are not asked.
  have snapshot (begun : LogTable) : RowFrame begun begun.refreshSnapshotTimeKeys := by
    unfold refreshSnapshotTimeKeys
    apply foldl_invariant (fun next : LogTable => RowFrame begun next)
    · exact fun next key _ frame => ⟨frame.rows, frame.sources⟩
    · exact .of_eq rfl rfl
  -- The stream begins without rows, with one source at most.
  let fresh : LogTable :=
    { table with
      lines := []
      sources := source.toList
      keys := .empty
      enumDictionaries := .empty
      enumTrackers := fun _ => none
      enumColumnHealth := fun _ => none
      isStreaming := true
      lastBackfillRange := none
      lastBatchDemotedKeys := []
      levelRankCache := fun _ => none
      pendingLevelBubbleKeys := [] }
  have whole := (snapshot fresh).trans
    (rowFrame_refreshSnapshotEnumKeys fresh.refreshSnapshotTimeKeys)
  exact ⟨whole.rows, whole.sources⟩

/-- Moving a column stays in the frame. -/
theorem rowFrame_moveColumn (table : LogTable) (srcIndex destIndex : Nat) :
    RowFrame table (table.moveColumn srcIndex destIndex) := by
  unfold moveColumn
  split
  · exact .refl table
  · exact .of_eq rfl rfl

end Steps

end LogTable

end Loglib
