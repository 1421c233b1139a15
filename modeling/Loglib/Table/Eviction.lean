import Loglib.Table.Operations

/-! Evicting the first rows: which lines the surviving rows keep, and which they lose. -/

namespace Loglib

namespace StreamLineSource

/-- A line is held after an eviction exactly when it was held and is not before the boundary. -/
theorem lineIsLive_evictBefore (stream : StreamLineSource) (boundary lineId : Nat) :
    (stream.evictBefore boundary).lineIsLive lineId =
      (stream.lineIsLive lineId && decide (boundary ≤ lineId)) := by
  unfold evictBefore
  split
  · -- The boundary is behind what has been evicted already.
    rename_i gone
    by_cases live : stream.lineIsLive lineId = true
    · have first : stream.firstAvailableLineId ≤ lineId := by
        simp only [lineIsLive, Bool.and_eq_true, decide_eq_true_eq] at live
        exact live.1
      simp [live, gone.trans first]
    · simp [live]
  · rename_i past
    rw [Bool.eq_iff_iff]
    simp only [lineIsLive, Bool.and_eq_true, decide_eq_true_eq]
    omega

/-- Lines from the boundary on keep their place in the held lines, whatever the lines carry. -/
theorem getElem?_evictBefore (stream : StreamLineSource) {boundary lineId : Nat}
    (live : stream.lineIsLive lineId = true) (kept : boundary ≤ lineId) :
    (stream.evictBefore boundary).lines[(stream.evictBefore boundary).indexFor lineId]? =
        stream.lines[stream.indexFor lineId]? ∧
      (stream.evictBefore boundary).lineOwnedBytes[(stream.evictBefore boundary).indexFor lineId]? =
        stream.lineOwnedBytes[stream.indexFor lineId]? := by
  simp only [lineIsLive, Bool.and_eq_true, decide_eq_true_eq] at live
  unfold evictBefore
  split
  · exact ⟨rfl, rfl⟩
  · rename_i past
    -- Both deques drop the same prefix, and the index shifts by as much.
    have shifted : (min boundary stream.nextLineId - stream.firstAvailableLineId) +
        (lineId - min boundary stream.nextLineId) = lineId - stream.firstAvailableLineId := by
      omega
    simp only [indexFor, List.getElem?_drop, shifted, and_self]

/-- The text of a line after an eviction: gone before the boundary, unchanged from it on. -/
theorem rawLine_evictBefore (stream : StreamLineSource) (boundary lineId : Nat) :
    (stream.evictBefore boundary).rawLine lineId =
      if boundary ≤ lineId then stream.rawLine lineId else none := by
  unfold rawLine
  rw [lineIsLive_evictBefore]
  -- A line in front of the boundary is gone, one behind it keeps its place.
  by_cases kept : boundary ≤ lineId
  · by_cases live : stream.lineIsLive lineId = true
    · simp [live, kept, (stream.getElem?_evictBefore live kept).1]
    · simp [live]
  · simp [kept]

/-- The decoded bytes of a line after an eviction. -/
theorem arena_evictBefore (stream : StreamLineSource) (boundary lineId : Nat) :
    (stream.evictBefore boundary).arena lineId =
      if boundary ≤ lineId then stream.arena lineId else none := by
  unfold arena
  rw [lineIsLive_evictBefore]
  -- A line in front of the boundary is gone, one behind it keeps its place.
  by_cases kept : boundary ≤ lineId
  · by_cases live : stream.lineIsLive lineId = true
    · simp [live, kept, (stream.getElem?_evictBefore live kept).2]
    · simp [live]
  · simp [kept]

/-- A held line has a text. -/
theorem rawLine_isSome {stream : StreamLineSource} {lineId : Nat}
    (live : stream.lineIsLive lineId = true) : (stream.rawLine lineId).isSome := by
  have bound := live
  simp only [lineIsLive, Bool.and_eq_true, decide_eq_true_eq] at bound
  have := stream.counted
  have inside : stream.indexFor lineId < stream.lines.length := by unfold indexFor; omega
  simp [rawLine, live, List.getElem?_eq_getElem inside]

/-- A line that is not held has no text and no decoded bytes. -/
theorem not_live {stream : StreamLineSource} {lineId : Nat}
    (dead : stream.lineIsLive lineId = false) :
    stream.rawLine lineId = none ∧ stream.arena lineId = none := by
  simp [rawLine, arena, dead]

end StreamLineSource

namespace LineSource

/-- The source keeps everything a line reads when it evicts up to a boundary. -/
def Keeps (source : LineSource) (boundary lineId : Nat) : Prop :=
  ∀ stream, source = .stream stream → stream.lineIsLive lineId = true → boundary ≤ lineId

/-- What eviction leaves of a source. -/
def afterEviction (source : LineSource) (boundary : Nat) : LineSource :=
  if source.supportsEviction then source.evictBefore boundary else source

/-- A boundary of zero evicts nothing. -/
theorem afterEviction_zero (source : LineSource) : source.afterEviction 0 = source := by
  cases source <;> simp [afterEviction, evictBefore, StreamLineSource.evictBefore, supportsEviction]

/-- A kept line reads the same text after the eviction. -/
theorem rawLine_afterEviction {source : LineSource} {boundary lineId : Nat}
    (keeps : source.Keeps boundary lineId) :
    (source.afterEviction boundary).rawLine lineId = source.rawLine lineId := by
  -- Files are not evicted from.
  cases source with
  | file file => rfl
  | stream stream =>
    show (stream.evictBefore boundary).rawLine lineId = stream.rawLine lineId
    rw [StreamLineSource.rawLine_evictBefore]
    cases live : stream.lineIsLive lineId with
    | true => rw [if_pos (keeps stream rfl live)]
    | false => simp [(StreamLineSource.not_live live).1]

/-- A kept line reads the same decoded bytes after the eviction. -/
theorem resolveOwnedBytes_afterEviction {source : LineSource} {boundary lineId : Nat}
    (keeps : source.Keeps boundary lineId) (offset length : Nat) :
    (source.afterEviction boundary).resolveOwnedBytes offset length lineId =
      source.resolveOwnedBytes offset length lineId := by
  -- Files are not evicted from.
  cases source with
  | file file => rfl
  | stream stream =>
    show (stream.evictBefore boundary).resolveOwnedBytes offset length lineId =
      stream.resolveOwnedBytes offset length lineId
    unfold StreamLineSource.resolveOwnedBytes
    rw [StreamLineSource.arena_evictBefore]
    cases live : stream.lineIsLive lineId with
    | true => rw [if_pos (keeps stream rfl live)]
    | false => simp [(StreamLineSource.not_live live).2]

/-- Eviction never touches mapped bytes. -/
theorem resolveMmapBytes_afterEviction (source : LineSource) (boundary offset length : Nat) :
    (source.afterEviction boundary).resolveMmapBytes offset length =
      source.resolveMmapBytes offset length := by
  cases source <;> rfl

/-- A line whose text survives the eviction is kept. -/
theorem keeps_of_rawLine {source : LineSource} {boundary lineId : Nat}
    (same : (source.afterEviction boundary).rawLine lineId = source.rawLine lineId) :
    source.Keeps boundary lineId := by
  rintro stream rfl live
  by_contra lost
  -- A live line has a text, which eviction would take away.
  have text := StreamLineSource.rawLine_isSome live
  have gone : (stream.evictBefore boundary).rawLine lineId = none := by
    rw [StreamLineSource.rawLine_evictBefore, if_neg lost]
  have same : (stream.evictBefore boundary).rawLine lineId = stream.rawLine lineId := same
  rw [← same, gone] at text
  simp at text

/-- A slot of a kept line materialises to the same value after the eviction. -/
theorem materialise_afterEviction {source : LineSource} {boundary lineId : Nat}
    (keeps : source.Keeps boundary lineId) (slot : CompactLogValue)
    (registry : EnumDictionaryRegistry) (keyId : KeyId) :
    slot.materialise (some (source.afterEviction boundary)) registry lineId keyId =
      slot.materialise (some source) registry lineId keyId := by
  cases slot <;> simp [CompactLogValue.materialise, resolveMmapBytes_afterEviction,
    resolveOwnedBytes_afterEviction keeps]

end LineSource

namespace LogTable

/-- What an eviction promises: the old rows from the count on, with their texts and values. -/
structure EvictionKeepsSurvivors (table : LogTable) (count : Nat) : Prop where
  rows : (table.evictPrefixRows count).lines = table.lines.drop count
  texts : ∀ line ∈ table.lines.drop count,
    line.rawLine (table.evictPrefixRows count).sources = line.rawLine table.sources
  fields : ∀ line ∈ table.lines.drop count, ∀ id,
    line.getValue (table.evictPrefixRows count).context id = line.getValue table.context id
  cells : ∀ row column,
    (table.evictPrefixRows count).getValue row column = table.getValue (row + count) column
  ownedBytes : ∀ line ∈ table.lines.drop count, ∀ source,
    table.sources[line.source]? = some source →
    ∃ kept, (table.evictPrefixRows count).sources[line.source]? = some kept ∧
      ∀ offset length, kept.resolveOwnedBytes offset length line.lineId =
        source.resolveOwnedBytes offset length line.lineId

/-- No survivor is a held stream line numbered below the first survivor. -/
def SurvivorsPastBoundary (table : LogTable) (count : Nat) : Prop :=
  count = 0 ∨ ∀ first, table.lines[count]? = some first → ∀ line ∈ table.lines.drop count,
    ∀ stream, table.sources[line.source]? = some (.stream stream) →
      stream.lineIsLive line.lineId = true → first.lineId ≤ line.lineId

/-- Eviction changes the rows and the sources and nothing else. -/
theorem evictPrefixRows_frame (table : LogTable) (count : Nat) :
    (table.evictPrefixRows count).columnKeyIds = table.columnKeyIds ∧
      (table.evictPrefixRows count).enumDictionaries = table.enumDictionaries := by
  unfold evictPrefixRows
  split
  · exact ⟨rfl, rfl⟩
  · split <;> exact ⟨rfl, rfl⟩

/-- The rows that are left are always the old ones from the count on. -/
theorem evictPrefixRows_lines (table : LogTable) (count : Nat) :
    (table.evictPrefixRows count).lines = table.lines.drop count := by
  unfold evictPrefixRows
  -- Nothing to drop, everything to drop, or the front.
  split
  · rename_i none_
    simp [none_]
  · split
    · rename_i past
      rw [List.drop_eq_nil_of_le (List.getElem?_eq_none_iff.mp past)]
    · rfl

/-- A source after an eviction that leaves a first survivor. -/
theorem getElem?_evictPrefixRows {table : LogTable} {count : Nat} (some_ : count ≠ 0)
    {first : LogLine} (survivor : table.lines[count]? = some first) (source : Nat) :
    (table.evictPrefixRows count).sources[source]? =
      (table.sources[source]?).map fun held => held.afterEviction first.lineId := by
  unfold evictPrefixRows
  rw [if_neg some_]
  simp only [survivor, evictSources, List.getElem?_map]
  rfl

/-- An eviction that leaves every line of its survivors alone keeps all they show. -/
theorem keepsSurvivors_of_sources {table : LogTable} {count : Nat}
    (same : ∀ line ∈ table.lines.drop count, ∀ source, table.sources[line.source]? = some source →
      ∃ boundary, (table.evictPrefixRows count).sources[line.source]? =
        some (source.afterEviction boundary) ∧ source.Keeps boundary line.lineId)
    (missing : ∀ position : Nat, table.sources[position]? = none →
      (table.evictPrefixRows count).sources[position]? = none) :
    table.EvictionKeepsSurvivors count := by
  have fields : ∀ line ∈ table.lines.drop count, ∀ id,
      line.getValue (table.evictPrefixRows count).context id = line.getValue table.context id := by
    intro line member id
    unfold LogLine.getValue context
    rw [(table.evictPrefixRows_frame count).2]
    cases line.findCompact id with
    | none => rfl
    | some slot =>
      cases held : table.sources[line.source]? with
      | none => simp [missing line.source held]
      | some source =>
        obtain ⟨boundary, left, keeps⟩ := same line member source held
        simp only [left]
        exact LineSource.materialise_afterEviction keeps slot table.enumDictionaries id
  refine ⟨table.evictPrefixRows_lines count, fun line member => ?_, fields, fun row column => ?_,
    fun line member source held => ?_⟩
  · unfold LogLine.rawLine
    cases held : table.sources[line.source]? with
    | none => simp [missing line.source held]
    | some source =>
      obtain ⟨boundary, left, keeps⟩ := same line member source held
      simp only [left, Option.bind_some]
      exact LineSource.rawLine_afterEviction keeps
  · -- A cell reads its line's slots one after the other, and each of them is unchanged.
    unfold getValue
    rw [(table.evictPrefixRows_frame count).1, evictPrefixRows_lines, List.getElem?_drop,
      Nat.add_comm count row]
    cases ids : table.columnKeyIds[column]? with
    | none => rfl
    | some keyIds =>
      cases found : table.lines[row + count]? with
      | none => rfl
      | some line =>
        have member : line ∈ table.lines.drop count := by
          rw [List.mem_iff_getElem?]
          exact ⟨row, by rw [List.getElem?_drop, Nat.add_comm, found]⟩
        clear ids
        show firstValue line _ keyIds = firstValue line _ keyIds
        induction keyIds with
        | nil => rfl
        | cons id rest ih =>
          cases id with
          | none => exact ih
          | some id => simp only [firstValue, fields line member id, ih]
  · obtain ⟨boundary, left, keeps⟩ := same line member source held
    exact ⟨_, left, fun offset length =>
      LineSource.resolveOwnedBytes_afterEviction keeps offset length⟩

/-- An eviction keeps its survivors if none of them is a held stream line below the boundary. -/
theorem keepsSurvivors_of_past {table : LogTable} {count : Nat}
    (past : table.SurvivorsPastBoundary count) :
    table.EvictionKeepsSurvivors count := by
  by_cases nothing : count = 0
  · subst nothing
    have same : table.evictPrefixRows 0 = table := rfl
    refine keepsSurvivors_of_sources (fun line member source held => ?_) fun position absent => ?_
    · refine ⟨0, ?_, fun stream _ _ => Nat.zero_le _⟩
      rw [same, held, LineSource.afterEviction_zero]
    · rw [same, absent]
  cases survivor : table.lines[count]? with
  | none =>
    -- Nobody survives, so there is nothing to keep.
    have nobody : table.lines.drop count = [] :=
      List.drop_eq_nil_of_le (List.getElem?_eq_none_iff.mp survivor)
    refine keepsSurvivors_of_sources (by simp [nobody]) fun position absent => ?_
    unfold evictPrefixRows
    rw [if_neg nothing]
    simp [survivor, evictSources, absent]
  | some first =>
    have kept := past.resolve_left nothing first survivor
    refine keepsSurvivors_of_sources (fun line member source held => ?_) fun position absent => ?_
    · refine ⟨first.lineId, by rw [getElem?_evictPrefixRows nothing survivor, held]; rfl, ?_⟩
      rintro stream rfl live
      exact kept line member stream held live
    · rw [getElem?_evictPrefixRows nothing survivor, absent]
      rfl

/-- In every state that a run reaches, an eviction keeps its survivors exactly when none of them
is a held stream line below the boundary. -/
theorem run_eviction_keepsSurvivors_iff (parse : TimestampParser) (start : LogTable)
    (ops : List TableOp) (count : Nat) : ∀ table ∈ run parse start ops,
    table.EvictionKeepsSurvivors count ↔ table.SurvivorsPastBoundary count := by
  intro table _
  refine ⟨fun intact => ?_, keepsSurvivors_of_past⟩
  by_cases nothing : count = 0
  · exact .inl nothing
  refine .inr fun first survivor line member stream held live => ?_
  have text := intact.texts line member
  unfold LogLine.rawLine at text
  rw [getElem?_evictPrefixRows nothing survivor, held] at text
  -- A text that is still there belongs to a line that was kept.
  have keeps : (LineSource.stream stream).Keeps first.lineId line.lineId :=
    LineSource.keeps_of_rawLine text
  exact keeps stream rfl live

/-- A row without fields. -/
def bareRow (source lineId : Nat) : LogLine := ⟨.empty, source, lineId⟩

/-- Three rows of a file, then one row of a live stream. -/
def historyThenTail : List TableOp :=
  [.beginStreaming (some (.file (.ofData (bytes "a\nb\nc\n")))),
    .appendBatch ⟨[bareRow 0 0, bareRow 0 1, bareRow 0 2], [2, 4, 6], [], []⟩,
    .appendStreaming (.stream .empty),
    .parserLine 1 (bytes "x") [],
    .appendBatch ⟨[bareRow 1 1], [], [], []⟩]

/-- The table of a run that does not throw. -/
theorem exists_run_historyThenTail : ∃ table,
    run (fun _ _ => none) (initial ⟨[], ⟨-1, false⟩⟩) historyThenTail = some table ∧
      table.lines = [bareRow 0 0, bareRow 0 1, bareRow 0 2, bareRow 1 1] ∧
      table.sources[1]? = some (.stream (StreamLineSource.empty.appendLine (bytes "x") []).1) :=
  ⟨_, rfl, rfl, rfl⟩

/-- Evicting all of the file history leaves the live row alone. -/
theorem historyThenTail_keeps_live_row : ∃ table,
    run (fun _ _ => none) (initial ⟨[], ⟨-1, false⟩⟩) historyThenTail = some table ∧
      table.EvictionKeepsSurvivors 3 := by
  obtain ⟨table, reached, lines, -⟩ := exists_run_historyThenTail
  refine ⟨table, reached,
    (run_eviction_keepsSurvivors_iff _ _ historyThenTail 3 table reached).mpr (.inr ?_)⟩
  intro first survivor line member stream _ _
  simp only [lines] at survivor member
  simp_all [bareRow]

/-- Evicting two rows of file history takes the text of the live row that survives. -/
theorem historyThenTail_loses_live_row :
    ¬∀ (ops : List TableOp) (count : Nat),
      ∀ table ∈ run (fun _ _ => none) (initial ⟨[], ⟨-1, false⟩⟩) ops,
        table.EvictionKeepsSurvivors count := by
  intro claim
  -- Two history rows stand in front of the tail's first row.
  obtain ⟨table, reached, lines, stream⟩ := exists_run_historyThenTail
  have intact := claim historyThenTail 2 table reached
  have survivor : table.lines[2]? = some (bareRow 0 2) := by rw [lines]; rfl
  have text := intact.texts (bareRow 1 1) (by rw [lines]; simp [bareRow])
  unfold LogLine.rawLine at text
  rw [getElem?_evictPrefixRows (by decide) survivor] at text
  simp only [bareRow, stream] at text
  exact absurd text (by decide)

end LogTable

end Loglib
