import Mathlib
import Loglib.Table.LogTable

/-! Timestamp promotion: raw strings under the keys of a time column become timestamps. -/

namespace Loglib

/-- A text parser for one format, as the timestamp library offers it. -/
abbrev TimestampParser := (format : Bytes) → (text : Bytes) → Option Int64

/-- The keys of a time column, unknown keys included, and the formats to try. -/
structure TimeColumnSpec where
  keyIds : List (Option KeyId)
  parseFormats : List Bytes

/-- Hints carried from line to line: the last successful key and format, and the last bytes. -/
structure PromotionHints where
  lastValid : Option (KeyId × Bytes)
  bytesHit : Option (KeyId × Bytes × Int64)

namespace TimeColumnSpec

/-- Bytes of a raw string slot, none for a slice that is no longer there. -/
def extractStringBytes (sources : List LineSource) (line : LogLine) (keyId : KeyId) :
    Option Bytes :=
  match line.findCompact keyId, sources[line.source]? with
  | some (.mmapSlice offset length), some source =>
    let text := source.resolveMmapBytes offset length.toNat
    if text.isEmpty && length != 0 then none else some text
  | some (.ownedString offset length), some source =>
    let text := source.resolveOwnedBytes offset length.toNat line.lineId
    if text.isEmpty && length != 0 then none else some text
  | _, _ => none

/-- The timestamp of the bytes by one format: the remembered one for the same key and bytes. -/
def tryPromote (parse : TimestampParser) (hints : PromotionHints) (keyId : KeyId)
    (format text : Bytes) : Option Int64 :=
  match hints.bytesHit with
  | some (hitKey, hitBytes, parsed) =>
    if hitKey = keyId ∧ hitBytes = text then some parsed else parse format text
  | none => parse format text

/-- The first key and format, in column order, by which the line promotes. -/
def firstPromotion (parse : TimestampParser) (spec : TimeColumnSpec) (sources : List LineSource)
    (hints : PromotionHints) (line : LogLine) : Option (KeyId × Bytes × Bytes × Int64) :=
  spec.keyIds.findSome? fun keyId =>
    keyId.bind fun keyId =>
      (extractStringBytes sources line keyId).bind fun text =>
        spec.parseFormats.findSome? fun format =>
          (tryPromote parse hints keyId format text).map fun parsed => (keyId, format, text, parsed)

/-- The promotion by the last successful key and format. -/
def hintedPromotion (parse : TimestampParser) (sources : List LineSource)
    (hints : PromotionHints) (line : LogLine) : Option (KeyId × Bytes × Bytes × Int64) :=
  hints.lastValid.bind fun (keyId, format) =>
    (extractStringBytes sources line keyId).bind fun text =>
      (tryPromote parse hints keyId format text).map fun parsed => (keyId, format, text, parsed)

/-- The promotion of a line: the hinted one, else the first that works. -/
def promotion (parse : TimestampParser) (spec : TimeColumnSpec) (sources : List LineSource)
    (hints : PromotionHints) (line : LogLine) : Option (KeyId × Bytes × Bytes × Int64) :=
  match hintedPromotion parse sources hints line with
  | some found => some found
  | none => firstPromotion parse spec sources hints line

/-- `PromoteLineTimestamps` for one column. -/
def promoteLine (parse : TimestampParser) (spec : TimeColumnSpec) (sources : List LineSource)
    (hints : PromotionHints) (line : LogLine) : LogLine × PromotionHints :=
  match promotion parse spec sources hints line with
  | none => (line, hints)
  | some (keyId, format, text, parsed) =>
    (line.setCompact keyId (.timestamp parsed),
      ⟨some (keyId, format), some (keyId, text, parsed)⟩)

/-- Promote the lines in order. -/
def promoteLines (parse : TimestampParser) (spec : TimeColumnSpec) (sources : List LineSource) :
    PromotionHints → List LogLine → List LogLine
  | _, [] => []
  | hints, line :: rest =>
    let (promoted, next) := promoteLine parse spec sources hints line
    promoted :: promoteLines parse spec sources next rest

end TimeColumnSpec

/-- A line after promotion: itself, or with one raw string slot turned into a timestamp. -/
inductive Promoted (line : LogLine) : LogLine → Prop where
  | kept : Promoted line line
  | stamped (keyId : KeyId) (slot : CompactLogValue) (microseconds : Int64)
      (found : line.findCompact keyId = some slot) (raw : slot.isRawString = true) :
      Promoted line (line.setCompact keyId (.timestamp microseconds))

namespace TimeColumnSpec

/-- Only raw string slots have bytes to extract. -/
theorem extractStringBytes_raw {sources : List LineSource} {line : LogLine} {keyId : KeyId}
    {text : Bytes} (extracted : extractStringBytes sources line keyId = some text) :
    ∃ slot, line.findCompact keyId = some slot ∧ slot.isRawString = true := by
  unfold extractStringBytes at extracted
  -- Only the two kinds of raw text are extracted.
  split at extracted
  · rename_i offset length source found located
    exact ⟨_, found, rfl⟩
  · rename_i offset length source found located
    exact ⟨_, found, rfl⟩
  · simp at extracted

/-- A line promotes by a key under which it has bytes. -/
theorem promotion_extracts {parse : TimestampParser} {spec : TimeColumnSpec}
    {sources : List LineSource} {hints : PromotionHints} {line : LogLine} {keyId : KeyId}
    {format text : Bytes} {parsed : Int64}
    (found : promotion parse spec sources hints line = some (keyId, format, text, parsed)) :
    extractStringBytes sources line keyId = some text := by
  unfold promotion at found
  split at found
  · -- The hint is tried first, and else every key with every format. Either way the text was
    -- extracted.
    rename_i hinted taken
    unfold hintedPromotion at taken
    obtain ⟨⟨hintKey, hintFormat⟩, -, rest⟩ := Option.bind_eq_some_iff.mp taken
    obtain ⟨bytes, extracted, rest⟩ := Option.bind_eq_some_iff.mp rest
    obtain ⟨stamp, -, same⟩ := Option.map_eq_some_iff.mp rest
    have both := same.trans (Option.some.inj found)
    simp only [Prod.mk.injEq] at both
    rw [← both.1, ← both.2.2.1]
    exact extracted
  · unfold firstPromotion at found
    obtain ⟨known, -, rest⟩ := List.exists_of_findSome?_eq_some found
    obtain ⟨id, -, rest⟩ := Option.bind_eq_some_iff.mp rest
    obtain ⟨bytes, extracted, rest⟩ := Option.bind_eq_some_iff.mp rest
    obtain ⟨used, -, rest⟩ := List.exists_of_findSome?_eq_some rest
    obtain ⟨stamp, -, same⟩ := Option.map_eq_some_iff.mp rest
    simp only [Prod.mk.injEq] at same
    rw [← same.1, ← same.2.2.1]
    exact extracted

/-- Promoting a line touches at most one raw string slot. -/
theorem promoteLine_promoted (parse : TimestampParser) (spec : TimeColumnSpec)
    (sources : List LineSource) (hints : PromotionHints) (line : LogLine) :
    Promoted line (promoteLine parse spec sources hints line).1 := by
  unfold promoteLine
  split
  · exact .kept
  · rename_i keyId format text parsed found
    obtain ⟨slot, located, raw⟩ := extractStringBytes_raw (promotion_extracts found)
    exact .stamped keyId slot parsed located raw

/-- A line after promotion by a column: itself, or with the text under a key of the column turned
into what a format of the column reads from it. -/
inductive PromotedBy (parse : TimestampParser) (spec : TimeColumnSpec) (sources : List LineSource)
    (line : LogLine) :
    LogLine → Prop where
  | kept : PromotedBy parse spec sources line line
  | stamped (keyId : KeyId) (format text : Bytes) (microseconds : Int64)
      (known : some keyId ∈ spec.keyIds)
      (listed : format ∈ spec.parseFormats)
        (extracted : extractStringBytes sources line keyId = some text)
      (reads : parse format text = some microseconds) :
      PromotedBy parse spec sources line (line.setCompact keyId (.timestamp microseconds))

/-- Hints taken from lines of a column: a key and a format of the column, and bytes that a format of
the column reads. -/
structure Remembers (parse : TimestampParser) (spec : TimeColumnSpec)
    (hints : PromotionHints) : Prop where
  valid : ∀ keyId format, hints.lastValid = some (keyId, format) →
    some keyId ∈ spec.keyIds ∧ format ∈ spec.parseFormats
  read : ∀ keyId text parsed, hints.bytesHit = some (keyId, text, parsed) →
    ∃ format ∈ spec.parseFormats, parse format text = some parsed

/-- Whatever is promoted is read by a format of the column. -/
theorem tryPromote_reads {parse : TimestampParser} {spec : TimeColumnSpec} {hints : PromotionHints}
    (remembers : Remembers parse spec hints) {keyId : KeyId} {format text : Bytes} {parsed : Int64}
    (listed : format ∈ spec.parseFormats)
    (promoted : tryPromote parse hints keyId format text = some parsed) :
    ∃ used ∈ spec.parseFormats, parse used text = some parsed := by
  unfold tryPromote at promoted
  split at promoted
  · rename_i hitKey hitBytes hitParsed held
    split at promoted
    · rename_i same
      -- The remembered bytes are the same, and so is what was read from them.
      obtain ⟨used, member, reads⟩ := remembers.read hitKey hitBytes hitParsed held
      exact ⟨used, member, same.2 ▸ Option.some.inj promoted ▸ reads⟩
    · exact ⟨format, listed, promoted⟩
  · exact ⟨format, listed, promoted⟩

/-- A promotion is by a key and a format of the column. -/
theorem promotion_listed {parse : TimestampParser} {spec : TimeColumnSpec}
    {sources : List LineSource}
    {hints : PromotionHints} (remembers : Remembers parse spec hints) {line : LogLine}
    {keyId : KeyId}
    {format text : Bytes} {parsed : Int64}
    (found : promotion parse spec sources hints line = some (keyId, format, text, parsed)) :
    some keyId ∈ spec.keyIds ∧ format ∈ spec.parseFormats ∧
      ∃ used ∈ spec.parseFormats, parse used text = some parsed := by
  unfold promotion at found
  split at found
  · -- A hint names a key of the column and a format that has read a text there.
    rename_i hinted taken
    obtain rfl := Option.some.inj found
    unfold hintedPromotion at taken
    obtain ⟨⟨hintKey, hintFormat⟩, held, rest⟩ := Option.bind_eq_some_iff.mp taken
    obtain ⟨bytes, -, rest⟩ := Option.bind_eq_some_iff.mp rest
    obtain ⟨stamp, promoted, same⟩ := Option.map_eq_some_iff.mp rest
    simp only [Prod.mk.injEq] at same
    obtain ⟨rfl, rfl, rfl, rfl⟩ := same
    obtain ⟨known, listed⟩ := remembers.valid hintKey hintFormat held
    exact ⟨known, listed, tryPromote_reads remembers listed promoted⟩
  · -- The search goes through the column's own keys and formats.
    unfold firstPromotion at found
    obtain ⟨known, inside, rest⟩ := List.exists_of_findSome?_eq_some found
    obtain ⟨id, isKnown, rest⟩ := Option.bind_eq_some_iff.mp rest
    obtain ⟨bytes, -, rest⟩ := Option.bind_eq_some_iff.mp rest
    obtain ⟨used, listed, rest⟩ := List.exists_of_findSome?_eq_some rest
    obtain ⟨stamp, promoted, same⟩ := Option.map_eq_some_iff.mp rest
    simp only [Prod.mk.injEq] at same
    obtain ⟨rfl, rfl, rfl, rfl⟩ := same
    exact ⟨isKnown ▸ inside, listed, tryPromote_reads remembers listed promoted⟩

/-- A line is promoted by the column, and leaves hints that are taken from it. -/
theorem promoteLine_promotedBy {parse : TimestampParser} {spec : TimeColumnSpec}
    {hints : PromotionHints}
    (remembers : Remembers parse spec hints) (sources : List LineSource) (line : LogLine) :
    PromotedBy parse spec sources line (promoteLine parse spec sources hints line).1 ∧
      Remembers parse spec (promoteLine parse spec sources hints line).2 := by
  unfold promoteLine
  split
  · exact ⟨.kept, remembers⟩
  · rename_i keyId format text parsed found
    -- What is read is a listed key in a listed format, and so are the hints that remember it.
    obtain ⟨known, listed, used, inFormats, reads⟩ := promotion_listed remembers found
    refine ⟨.stamped keyId used text parsed known inFormats (promotion_extracts found) reads, ?_,
      ?_⟩
    · rintro _ _ ⟨⟩
      exact ⟨known, listed⟩
    · rintro _ _ _ ⟨⟩
      exact ⟨used, inFormats, reads⟩

/-- A line that is promoted by a column is promoted. -/
theorem PromotedBy.promoted {parse : TimestampParser} {spec : TimeColumnSpec}
    {sources : List LineSource}
    {line later : LogLine} (change : PromotedBy parse spec sources line later) :
    Promoted line later := by
  cases change with
  | kept => exact .kept
  | stamped keyId format text microseconds known listed extracted reads =>
    obtain ⟨slot, located, raw⟩ := extractStringBytes_raw extracted
    exact .stamped keyId slot microseconds located raw

/-- Lines that are promoted one after the other are promoted by the column. -/
theorem promoteLines_promotedBy {parse : TimestampParser} {spec : TimeColumnSpec}
    {hints : PromotionHints}
    (remembers : Remembers parse spec hints) (sources : List LineSource) (lines : List LogLine) :
    List.Forall₂ (PromotedBy parse spec sources) lines
      (promoteLines parse spec sources hints lines) := by
  induction lines generalizing hints with
  | nil => exact .nil
  | cons line rest ih =>
    obtain ⟨promoted, next⟩ := promoteLine_promotedBy remembers sources line
    exact .cons promoted (ih next)

/-- Nothing is remembered at first. -/
theorem remembers_nothing (parse : TimestampParser) (spec : TimeColumnSpec) :
    Remembers parse spec ⟨none, none⟩ where
  valid _ _ held := by cases held
  read _ _ _ held := by cases held

end TimeColumnSpec

namespace LogTable

/-- `BackfillTimestampColumn` over the rows from an index on. -/
def backfillTimestampColumn (parse : TimestampParser) (table : LogTable) (column : Column)
    (rowBegin : Nat) : LogTable :=
  let spec : TimeColumnSpec := ⟨resolveKeys table.keys column, column.parseFormats⟩
  { table with
    lines := table.lines.take rowBegin ++
      spec.promoteLines parse table.sources ⟨none, none⟩ (table.lines.drop rowBegin) }

/-- A back-fill promotes each row by the column, or leaves it alone. -/
theorem backfillTimestampColumn_promotedBy (parse : TimestampParser) (table : LogTable)
    (column : Column) (rowBegin : Nat) :
    List.Forall₂ (TimeColumnSpec.PromotedBy parse ⟨resolveKeys table.keys column,
      column.parseFormats⟩ table.sources)
      table.lines (table.backfillTimestampColumn parse column rowBegin).lines := by
  -- The rows in front of the batch are not parsed.
  have kept := List.forall₂_same.mpr fun line (_ : line ∈ table.lines.take rowBegin) =>
    @TimeColumnSpec.PromotedBy.kept parse ⟨resolveKeys table.keys column,
      column.parseFormats⟩ table.sources line
  have whole := List.rel_append kept (TimeColumnSpec.promoteLines_promotedBy
    (TimeColumnSpec.remembers_nothing parse ⟨resolveKeys table.keys column, column.parseFormats⟩)
      table.sources
    (table.lines.drop rowBegin))
  simp only [List.take_append_drop] at whole
  exact whole

/-- A back-fill promotes each row or leaves it alone. -/
theorem backfillTimestampColumn_promoted (parse : TimestampParser) (table : LogTable)
    (column : Column) (rowBegin : Nat) :
    List.Forall₂ Promoted table.lines (table.backfillTimestampColumn parse column rowBegin).lines :=
  (table.backfillTimestampColumn_promotedBy parse column rowBegin).imp fun _ _ change =>
    change.promoted

/-- What `AppendBatch` keeps while it walks the time columns. -/
structure BackfillWalk where
  table : LogTable
  firstBackfilled : Option Nat
  lastBackfilled : Option Nat

/-- How `AppendBatch` treats one time column: parsed inline, seen first, or known since. -/
def backfillColumn (parse : TimestampParser) (oldLineCount : Nat) (walk : BackfillWalk)
    (columnIndex : Nat) (column : Column) : BackfillWalk :=
  if column.type ≠ .time then walk
  else
    let table := walk.table
    let ids := column.keys.filterMap table.keys.find
    if ids.any table.stageBSnapshotTimeKeys.contains then walk
    else if ids.any fun id => !table.postSnapshotTimeKeys.contains id then
      -- First observation of a key: every row, and the column counts as back-filled.
      { table :=
          { table.backfillTimestampColumn parse column 0 with
            postSnapshotTimeKeys := table.postSnapshotTimeKeys ++ ids }
        firstBackfilled := some (walk.firstBackfilled.getD columnIndex)
        lastBackfilled := some columnIndex }
    else if !ids.isEmpty then
      -- Known keys: only the rows of this batch.
      { walk with table := table.backfillTimestampColumn parse column oldLineCount }
    else walk

end LogTable

end Loglib
