import Loglib.Table.EnumEncoding
import Loglib.Table.TimeBackfill

/-! The enumeration pass of a batch, the end-of-parse sweep, and the rescan of one column. -/

namespace Loglib

namespace LogTable

/-- The slot a line carries under the first of the ids it has. -/
def firstSlot (line : LogLine) (ids : List KeyId) : Option CompactLogValue :=
  ids.findSome? line.findCompact

/-- Count one row of a candidate. -/
def observeRow (sources : List LineSource) (ids : List KeyId) (tracker : EnumCandidateTracker)
    (line : LogLine) : EnumCandidateTracker :=
  tracker.observeSlot (firstSlot line ids) (line.peekStringView sources)

/-- Scan rows of a batch until the candidate is decided or the scan budget is spent. -/
def scanRows (sources : List LineSource) (ids : List KeyId) (cap minRows : Nat) :
    EnumCandidateTracker → List LogLine → EnumCandidateTracker
  | tracker, [] => tracker
  | tracker, line :: rest =>
    let tracker := observeRow sources ids tracker line
    if tracker.killed then tracker
    else if tracker.ready cap minRows then tracker
    else if 2 * minRows ≤ tracker.rowsObserved then tracker
    else scanRows sources ids cap minRows tracker rest

/-- Scan every row, unless the candidate is killed on the way. -/
def rescanRows (sources : List LineSource) (ids : List KeyId) :
    EnumCandidateTracker → List LogLine → EnumCandidateTracker
  | tracker, [] => tracker
  | tracker, line :: rest =>
    let tracker := observeRow sources ids tracker line
    if tracker.killed then tracker else rescanRows sources ids tracker rest

/-- Size of the dictionary of a key, zero without one. -/
def dictSize (table : LogTable) (key : KeyId) : Nat :=
  ((table.enumDictionaries.find key).map (·.size)).getD 0

/-- Encode the new rows of a dictionary column. The flag asks for the column to be repainted. -/
def encodeActiveColumn (table : LogTable) (oldLineCount columnIndex : Nat) (column : Column) :
    Option (LogTable × Bool) :=
  match table.resolvedKeys columnIndex with
  | [] => some (table, false)
  | canonical :: aliases =>
    let (encoded, encodeOk) :=
      table.encodeColumnRange (canonical :: aliases) oldLineCount canonical
    let health := (encoded.enumColumnHealth canonical).getD .empty
    if encodeOk = false then
      -- A pinned column keeps its type; what did not fit stays raw text.
      if column.autoDetect then
        (encoded.demoteColumnFromEnum columnIndex true).map fun demoted => (demoted, true)
      else some (encoded, false)
    else if column.autoDetect ∧ health.shouldDemote enumHealthMinSamples then
      (encoded.demoteColumnFromEnum columnIndex true).map fun demoted => (demoted, true)
    else
      let promoted :=
        if column.type = .enumeration ∧ column.autoDetect ∧
            table.dictSize canonical < encoded.dictSize canonical ∧
            column.keys.any isLogLevelKey then
          encoded.maybePromoteToLevel columnIndex
        else encoded
      some (promoted.refreshLevelRankCache columnIndex, false)

/-- Rows a candidate must show before it is promoted. -/
def promotionMinRows (table : LogTable) : Nat :=
  if table.isStreaming then streamPromotionMinRows else enumPromotionMinRows

/-- The tracker of a candidate after the new rows. The first of the ids names the tracker. -/
def scannedTracker (table : LogTable) (oldLineCount : Nat) (trackerKey : KeyId)
    (aliases : List KeyId) : EnumCandidateTracker :=
  scanRows table.sources (trackerKey :: aliases) table.enumValueCap table.promotionMinRows
    ((table.enumTrackers trackerKey).getD (.fresh table.enumValueCap table.enumValueMaxLen))
    (table.lines.drop oldLineCount)

/-- Replace or drop the tracker of a candidate. -/
def setTracker (table : LogTable) (trackerKey : KeyId) (tracker : Option EnumCandidateTracker) :
    LogTable :=
  { table with enumTrackers := Function.update table.enumTrackers trackerKey tracker }

/-- Scan the new rows of a candidate column and settle it if they suffice. -/
def scanCandidateColumn (table : LogTable) (oldLineCount columnIndex : Nat) (column : Column) :
    Option (LogTable × Bool) :=
  match column.keys, table.resolvedKeys columnIndex with
  | [], _ => some (table, false)
  | _, [] => some (table, false)
  | _, trackerKey :: aliases =>
    let tracker := table.scannedTracker oldLineCount trackerKey aliases
    let settled := table.setTracker trackerKey none
    if tracker.killed then some (settled.setColumnType columnIndex .string, false)
    else if tracker.ready table.enumValueCap table.promotionMinRows then
      (settled.promoteColumnToEnum columnIndex).map fun promoted => (promoted, true)
    else if tracker.rowsObserved < 2 * table.promotionMinRows then
      some (table.setTracker trackerKey tracker, false)
    else if tracker.presenceCount = 0 then
      -- A sparse column starts over with the next batch.
      some (table.setTracker trackerKey (some { tracker with rowsObserved := 0 }), false)
    else if tracker.size = 0 then
      some (settled.setColumnType columnIndex tracker.routeNoStringBail, false)
    else if table.isStreaming = false ∧ overCardinality tracker.size tracker.presenceCount then
      some (settled.setColumnType columnIndex .string, false)
    else some (table.setTracker trackerKey tracker, false)

/-- Widen the back-filled range to a column. -/
def BackfillWalk.recordBackfill (walk : BackfillWalk) (columnIndex : Nat) : BackfillWalk :=
  { walk with
    firstBackfilled := some (min columnIndex (walk.firstBackfilled.getD columnIndex))
    lastBackfilled := some (max columnIndex (walk.lastBackfilled.getD columnIndex)) }

/-- The enumeration pass over one column. -/
def enumPassColumn (oldLineCount : Nat) (walk : BackfillWalk) (columnIndex : Nat) :
    Option BackfillWalk :=
  let table := walk.table
  match table.columns[columnIndex]? with
  | none => some walk
  | some column =>
    -- Without cached ids there is nothing to look up.
    if table.columnKeyIds.length ≤ columnIndex then some walk
    else
      let outcome :=
        if column.type.isEnumLike then
          table.encodeActiveColumn oldLineCount columnIndex column
        else if column.type = .any ∧ column.autoDetect then
          table.scanCandidateColumn oldLineCount columnIndex column
        else some (table, false)
      outcome.map fun (table, repaint) =>
        if repaint then BackfillWalk.recordBackfill { walk with table := table } columnIndex
        else { walk with table := table }

/-- `RunEnumPassForAppendBatch` over the rows from an index on. -/
def runEnumPass (oldLineCount : Nat) (walk : BackfillWalk) : Option BackfillWalk :=
  if walk.table.lines.length ≤ oldLineCount then some walk
  else (List.range walk.table.columns.length).foldlM (enumPassColumn oldLineCount) walk

/-- Decide a candidate column from a tracker of all its rows. -/
def settleCandidate (table : LogTable) (columnIndex : Nat) (tracker : EnumCandidateTracker) :
    Option LogTable :=
  if tracker.killed then some (table.setColumnType columnIndex .string)
  else if tracker.ready table.enumValueCap 2 then table.promoteColumnToEnum columnIndex
  else if tracker.size = 0 ∧ 0 < tracker.presenceCount then
    some (table.setColumnType columnIndex tracker.routeNoStringBail)
  else some table

/-- The tracker of all rows of a candidate column that the table can scan. -/
def rescannedTracker (table : LogTable) (columnIndex : Nat) :
    Option (KeyId × EnumCandidateTracker) :=
  match table.columns[columnIndex]? with
  | none => none
  | some column =>
    -- Only a column that is still open is looked at again.
    if column.type ≠ .any ∨ column.autoDetect = false ∨ column.keys.isEmpty ∨
        table.lines.isEmpty then
      none
    else
      match table.resolvedKeys columnIndex with
      | [] => none
      | trackerKey :: aliases =>
        some (trackerKey, rescanRows table.sources (trackerKey :: aliases)
          (.fresh table.enumValueCap table.enumValueMaxLen) table.lines)

/-- `RescanColumnForAutoDetection`: decide one candidate column from all rows. -/
def rescanColumnForAutoDetection (table : LogTable) (columnIndex : Nat) : Option LogTable :=
  match table.rescannedTracker columnIndex with
  | none => some table
  | some (trackerKey, tracker) =>
    (table.setTracker trackerKey none).settleCandidate columnIndex tracker

/-- The tracker of a candidate column that survived to the end of the parse. -/
def survivingTracker (table : LogTable) (columnIndex : Nat) : Option EnumCandidateTracker :=
  match table.columns[columnIndex]? with
  | none => none
  | some column =>
    if column.type ≠ .any ∨ column.autoDetect = false then none
    else (column.keys.head?.bind table.keys.find).bind table.enumTrackers

/-- Settle one surviving candidate at the end of a parse. -/
def finalizeCandidate (table : LogTable) (columnIndex : Nat) : Option LogTable :=
  match table.survivingTracker columnIndex with
  | none => some table
  | some tracker => table.settleCandidate columnIndex tracker

/-- Demote a dictionary column whose health is poor over all its rows. -/
def finalizeHealth (table : LogTable) (columnIndex : Nat) : Option LogTable :=
  match table.columns[columnIndex]? with
  | none => some table
  | some column =>
    if column.type.isEnumLike = false ∨ column.autoDetect = false then some table
    else
      match (column.keys.head?.bind table.keys.find).bind table.enumColumnHealth with
      | none => some table
      | some health =>
        if health.shouldDemote 1 then table.demoteColumnFromEnum columnIndex false else some table

/-- `FinalizeAutoDetection`: settle the candidates, then demote what is not enumeration shaped. -/
def finalizeAutoDetection (table : LogTable) : Option LogTable :=
  match (List.range table.columns.length).foldlM finalizeCandidate table with
  | none => none
  | some swept =>
    match (List.range swept.columns.length).foldlM finalizeHealth swept with
    | none => none
    | some settled => some { settled with enumTrackers := fun _ => none, isStreaming := false }

/-- `TakePendingLevelBubbleKeys`, `ApplyPendingLevelBubbles`: move promoted level columns. -/
def applyPendingLevelBubbles (table : LogTable) : LogTable :=
  table.pendingLevelBubbleKeys.foldl
    (fun table key =>
      -- A column that has lost its key in the meantime is not moved.
      let shows (column : Column) : Bool :=
        column.keys.any fun name => table.keys.find name = some key
      match table.columns.findIdx? shows with
      | none => table
      | some srcIndex =>
        if table.configuration.shouldBubbleLevelColumn srcIndex then
          table.moveColumn srcIndex LogConfiguration.canonicalLevelColumnIndex
        else table)
    { table with pendingLevelBubbleKeys := [] }

end LogTable

end Loglib
