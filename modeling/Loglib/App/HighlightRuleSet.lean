import Loglib.App.LeafRuleCompile
import Loglib.App.LevelColumnCache
import Loglib.Basic.Runs
import Loglib.Table.Eviction
import Loglib.Table.TableFrames

/-! The highlight rules of a session, and the rule that each row shows. -/

namespace Loglib

/-- `HighlightRule`: a filter rule that can be switched off. -/
structure HighlightRule extends LeafRule where
  enabled : Bool
deriving DecidableEq, Repr

/-- The largest `int16_t`, which bounds the number of rules. -/
def maxHighlightRules : Nat := 2 ^ 15 - 1

/-- `NO_MATCH`. -/
def noMatch : Int16 := -1

/-- The highlight rules as compiled last, and the last matching rule of every row. -/
structure HighlightRuleSet where
  rules : List HighlightRule
  /-- As long as the rules; an inert rule has no predicate. -/
  compiled : List (Option RowPredicate)
  resolvedColumn : List (Option Nat)
  /-- The winning rule of each row, or `noMatch`. -/
  rowMatch : List Int16
  inactiveCount : Nat
  activeCount : Nat

namespace HighlightRuleSet

/-- No rules and no rows. -/
def empty : HighlightRuleSet := ⟨[], [], [], [], 0, 0⟩

/-- The rule of a cache entry. -/
def ruleOfMatch (held : Int16) : Option Nat := if held < 0 then none else some held.toNatClampNeg

/-- `LastMatchFor`. -/
def lastMatchFor (highlights : HighlightRuleSet) (sourceRow : Nat) : Option Nat :=
  highlights.rowMatch[sourceRow]?.bind ruleOfMatch

/-- `ClearMatches`: the cache is dropped, the compiled rules stay. -/
def clearMatches (highlights : HighlightRuleSet) : HighlightRuleSet :=
  { highlights with rowMatch := [] }

/-- `OnRowsEvicted`. -/
def onRowsEvicted (highlights : HighlightRuleSet) (first last : Nat) : HighlightRuleSet :=
  if last < first ∨ highlights.rowMatch.length ≤ first then highlights
  else
    -- A range past the end is clamped to it.
    let clampedLast := min last (highlights.rowMatch.length - 1)
    { highlights with
      rowMatch := highlights.rowMatch.take first ++ highlights.rowMatch.drop (clampedLast + 1) }

section Compilation

variable (makeStringMatcher : Bytes → LeafRuleMatch → Bytes → Bool)

/-- `CompileRule`. -/
def compileRule (rule : HighlightRule) (resolvedColumn : Option Nat) (columns : List Column)
    (table : Option LogTable) : Option RowPredicate :=
  if !rule.enabled || resolvedColumn.isNone then none
  else compileLeaf makeStringMatcher rule.toLeafRule resolvedColumn columns table

/-- A rule compiled for the column that its keys resolve to. -/
def compileResolved (columns : List Column) (table : Option LogTable) (rule : HighlightRule) :
    Option RowPredicate :=
  compileRule makeStringMatcher rule (resolveLeafColumnByKeys rule.columnKeys columns) columns table

/-- `RecompileAll`: rules past the limit are dropped. -/
def recompileAll (highlights : HighlightRuleSet) (columns : List Column) (table : Option LogTable) :
    HighlightRuleSet :=
  let rules := highlights.rules.take maxHighlightRules
  let compiled := rules.map (compileResolved makeStringMatcher columns table)
  { highlights with
    rules
    compiled
    resolvedColumn := rules.map fun rule => resolveLeafColumnByKeys rule.columnKeys columns
    inactiveCount := compiled.countP Option.isNone
    activeCount := compiled.countP Option.isSome }

end Compilation

section Matching

variable (vformat : Bytes → LogValue → Bytes)

/-- The last of the first `count` rules that accepts a row. The rules are tried from the back. -/
def lastHit (compiled : List (Option RowPredicate)) (table : LogTable) (row : Nat) :
    Nat → Option Nat
  | 0 => none
  | index + 1 =>
    match compiled[index]? with
    | some (some predicate) =>
      if matchesRow vformat table row predicate then some index
        else lastHit compiled table row index
    | _ => lastHit compiled table row index

/-- The cache entry of a row. -/
def matchOf (compiled : List (Option RowPredicate)) (table : LogTable) (row : Nat) : Int16 :=
  match lastHit vformat compiled table row compiled.length with
  | some index => .ofNat index
  | none => noMatch

/-- `EvaluateRows`. -/
def evaluateRows (highlights : HighlightRuleSet) (table : LogTable) (first last : Nat) :
    HighlightRuleSet :=
  if highlights.compiled.isEmpty ∨ last < first ∨ highlights.rowMatch.length ≤ last then highlights
  else
    { highlights with
      rowMatch := highlights.rowMatch.mapIdx fun row held =>
        if first ≤ row ∧ row ≤ last then matchOf vformat highlights.compiled table row else held }

/-- `RebuildAllMatches`. -/
def rebuildAllMatches (highlights : HighlightRuleSet) (table : LogTable) : HighlightRuleSet :=
  let cleared := { highlights with rowMatch := List.replicate table.rowCount noMatch }
  if highlights.compiled.isEmpty ∨ highlights.activeCount = 0 ∨ table.rowCount = 0 then cleared
  else cleared.evaluateRows vformat table 0 (table.rowCount - 1)

/-- `resize`, which fills with `noMatch`. -/
def growTo (highlights : HighlightRuleSet) (size : Nat) : HighlightRuleSet :=
  { highlights with
    rowMatch := highlights.rowMatch ++ List.replicate (size - highlights.rowMatch.length) noMatch }

/-- `OnRowsAppended`. -/
def onRowsAppended (highlights : HighlightRuleSet) (table : LogTable)
    (firstNewRow lastNewRow : Nat) :
    HighlightRuleSet :=
  if highlights.rules.isEmpty ∨ highlights.activeCount = 0 then highlights.growTo table.rowCount
  else if lastNewRow < firstNewRow then highlights
  else (highlights.growTo (lastNewRow + 1)).evaluateRows vformat table firstNewRow lastNewRow

variable (makeStringMatcher : Bytes → LeafRuleMatch → Bytes → Bool)

/-- `SetRules`. -/
def setRules (highlights : HighlightRuleSet) (rules : List HighlightRule) (columns : List Column)
    (table : Option LogTable) : HighlightRuleSet :=
  let compiled := { highlights with rules }.recompileAll makeStringMatcher columns table
  match table with
  | some table => compiled.rebuildAllMatches vformat table
  | none => compiled.clearMatches

/-- `RebindColumns`. Without rules only the compiled state is reset. -/
def rebindColumns (highlights : HighlightRuleSet) (columns : List Column)
    (table : Option LogTable) :
    HighlightRuleSet :=
  if highlights.rules.isEmpty then
    { highlights with compiled := [], resolvedColumn := [], inactiveCount := 0, activeCount := 0 }
  else
    let compiled := highlights.recompileAll makeStringMatcher columns table
    match table with
    | some table => compiled.rebuildAllMatches vformat table
    | none => compiled

end Matching

end HighlightRuleSet

/-- The highlight rules of a session, beside the table of its model. -/
structure HighlightSession where
  highlights : HighlightRuleSet
  table : LogTable

/-- A call from outside, or a signal of the model. A signal that follows a change of the table
brings the table that its handler sees. -/
inductive HighlightStep where
  | setRules (rules : List HighlightRule) (columns : List Column) (withTable : Bool)
  | rebindColumns (columns : List Column) (withTable : Bool)
  | rowsInserted (table : LogTable)
  | rowsRemoved (count : Nat)
  | modelReset (table : LogTable)
  | columnsInserted (table : LogTable)

namespace HighlightSession

/-- A session without rules. -/
def initial (table : LogTable) : HighlightSession := ⟨.empty, table⟩

/-- The table pointer of a call. -/
def tablePointer (session : HighlightSession) (withTable : Bool) : Option LogTable :=
  if withTable then some session.table else none

variable (makeStringMatcher : Bytes → LeafRuleMatch → Bytes → Bool)
    (vformat : Bytes → LogValue → Bytes)

/-- One call or signal, as `LogSession` wires them. The model appends rows at the end, removes them
at the front, and has the same rows before and after a signal about columns. -/
def step (session : HighlightSession) : HighlightStep → Option HighlightSession
  | .setRules rules columns withTable =>
    some { session with
      highlights := session.highlights.setRules vformat makeStringMatcher rules columns
        (session.tablePointer withTable) }
  | .rebindColumns columns withTable =>
    some { session with
      highlights := session.highlights.rebindColumns vformat makeStringMatcher columns
        (session.tablePointer withTable) }
  | .rowsInserted table =>
    -- The model announces appended rows only.
    if table.rowCount ≤ session.table.rowCount then none
    else
      some ⟨session.highlights.onRowsAppended vformat table session.table.rowCount
        (table.rowCount - 1), table⟩
  | .rowsRemoved count =>
    -- Rows go from the front, when the cap is reached.
    if count = 0 ∨ session.table.rowCount < count then none
    else some ⟨session.highlights.onRowsEvicted 0 (count - 1), session.table.evictPrefixRows count⟩
  | .modelReset table => some ⟨session.highlights.clearMatches, table⟩
  | .columnsInserted table =>
    -- Columns are inserted after the rows of their batch.
    if table.rowCount = session.table.rowCount then
      some ⟨session.highlights.rebindColumns vformat makeStringMatcher table.columns (some table),
        table⟩
    else none

end HighlightSession

namespace HighlightRuleSet

section Winners

variable {vformat : Bytes → LogValue → Bytes} {compiled : List (Option RowPredicate)}
    {table : LogTable} {row : Nat}

/-- The compiled predicate of a rule accepts a row. -/
def RuleAccepts (vformat : Bytes → LogValue → Bytes) (compiled : List (Option RowPredicate))
    (table : LogTable)
    (row index : Nat) : Prop :=
  ∃ predicate, compiled[index]? = some (some predicate) ∧
    matchesRow vformat table row predicate = true

/-- An accepting rule is one of the compiled rules. -/
theorem RuleAccepts.lt {index : Nat} (accepting : RuleAccepts vformat compiled table row index) :
    index < compiled.length := by
  obtain ⟨predicate, held, -⟩ := accepting
  exact (List.getElem?_eq_some_iff.mp held).1

/-- One round of the loop over the rules. -/
theorem lastHit_succ (index : Nat) :
    (RuleAccepts vformat compiled table row index ∧
        lastHit vformat compiled table row (index + 1) = some index) ∨
      (¬RuleAccepts vformat compiled table row index ∧
        lastHit vformat compiled table row (index + 1) = lastHit vformat compiled table row
          index) := by
  unfold RuleAccepts
  rw [lastHit]
  -- Only an index that holds a predicate can be hit.
  cases held : compiled[index]? with
  | none => simp
  | some entry =>
    cases entry with
    | none => simp
    | some predicate =>
      by_cases hit : matchesRow vformat table row predicate = true
      · simp [hit]
      · simp [hit]

/-- The loop stops at the highest accepting rule. -/
theorem lastHit_eq_some_iff {count index : Nat} :
    lastHit vformat compiled table row count = some index ↔
      index < count ∧ RuleAccepts vformat compiled table row index ∧
        ∀ later < count, RuleAccepts vformat compiled table row later → later ≤ index := by
  induction count with
  | zero => simp [lastHit]
  | succ count ih =>
    obtain ⟨accepting, stops⟩ | ⟨refusing, goes⟩ := @lastHit_succ vformat compiled table row count
    · rw [stops]
      constructor
      · intro same
        obtain rfl := Option.some.inj same
        exact ⟨Nat.lt_succ_self _, accepting, fun later bound _ => Nat.le_of_lt_succ bound⟩
      · rintro ⟨bound, -, highest⟩
        -- The rule that stops the loop is accepting, so nothing below it is the highest.
        have least := highest count (Nat.lt_succ_self _) accepting
        have same : count = index := by omega
        rw [same]
    · rw [goes, ih]
      constructor
      · rintro ⟨bound, accepting, highest⟩
        refine ⟨by omega, accepting, fun later inside hit => ?_⟩
        have other : later ≠ count := by
          rintro rfl
          exact refusing hit
        exact highest later (by omega) hit
      · rintro ⟨bound, accepting, highest⟩
        have other : index ≠ count := by
          rintro rfl
          exact refusing accepting
        exact ⟨by omega, accepting, fun later inside => highest later (by omega)⟩

/-- The rule that a row should show: the highest one that accepts it. -/
def winner (vformat : Bytes → LogValue → Bytes) (compiled : List (Option RowPredicate))
    (table : LogTable)
    (row : Nat) : Option Nat :=
  lastHit vformat compiled table row compiled.length

/-- The winner is the highest accepting rule. -/
theorem winner_eq_some_iff {index : Nat} :
    winner vformat compiled table row = some index ↔
      RuleAccepts vformat compiled table row index ∧
        ∀ later, RuleAccepts vformat compiled table row later → later ≤ index := by
  unfold winner
  rw [lastHit_eq_some_iff]
  -- The highest accepting index is the last hit of the whole list.
  constructor
  · rintro ⟨-, accepting, highest⟩
    exact ⟨accepting, fun later hit => highest later hit.lt hit⟩
  · rintro ⟨accepting, highest⟩
    exact ⟨accepting.lt, accepting, fun later _ hit => highest later hit⟩

/-- Without active rules there is no winner. -/
theorem winner_of_inactive (inactive : compiled.countP Option.isSome = 0) :
    winner vformat compiled table row = none := by
  rw [Option.eq_none_iff_forall_ne_some]
  intro index won
  obtain ⟨⟨predicate, held, -⟩, -⟩ := winner_eq_some_iff.mp won
  -- The winner would be an active rule.
  have member := List.mem_of_getElem? held
  exact absurd rfl (List.countP_eq_zero.mp inactive _ member)

/-- A rule index survives the cache's `int16_t`. -/
theorem ruleOfMatch_ofNat {index : Nat} (small : index < 2 ^ 15) :
    ruleOfMatch (.ofNat index) = some index := by
  have value : (Int16.ofNat index).toInt = index := Int16.toInt_ofNat_of_lt small
  have nonneg : ¬Int16.ofNat index < 0 := by
    rw [Int16.lt_iff_toInt_lt, value, Int16.toInt_zero]
    omega
  unfold ruleOfMatch
  rw [if_neg nonneg, Int16.toNatClampNeg_ofNat_of_lt small]

/-- `noMatch` stands for no rule. -/
@[simp] theorem ruleOfMatch_noMatch : ruleOfMatch noMatch = none := by decide

/-- The entry written for a row stands for its winner. -/
theorem ruleOfMatch_matchOf (short : compiled.length ≤ maxHighlightRules) :
    ruleOfMatch (matchOf vformat compiled table row) = winner vformat compiled table row := by
  unfold matchOf
  show _ = lastHit vformat compiled table row compiled.length
  -- An index below the cap is stored as it is, and read back as it is.
  cases won : lastHit vformat compiled table row compiled.length with
  | none => exact ruleOfMatch_noMatch
  | some index =>
    have bound := (lastHit_eq_some_iff.mp won).1
    apply ruleOfMatch_ofNat
    unfold maxHighlightRules at short
    omega

end Winners

section Cache

variable {vformat : Bytes → LogValue → Bytes}
    {makeStringMatcher : Bytes → LeafRuleMatch → Bytes → Bool}
  {highlights : HighlightRuleSet}

/-- The compiled rules go with the rules, and are few enough for the cache. -/
structure Compiled (highlights : HighlightRuleSet) : Prop where
  length : highlights.compiled.length = highlights.rules.length
  short : highlights.compiled.length ≤ maxHighlightRules
  active : highlights.activeCount = highlights.compiled.countP Option.isSome

/-- Recompiling leaves the rules compiled. -/
theorem recompileAll_compiled (highlights : HighlightRuleSet) (columns : List Column)
    (table : Option LogTable) :
    (highlights.recompileAll makeStringMatcher columns table).Compiled := by
  refine ⟨by simp [recompileAll], ?_, rfl⟩
  simp only [recompileAll, List.length_map, List.length_take]
  omega

/-- What changes nothing but the cache. -/
def OnlyMatches (highlights after : HighlightRuleSet) : Prop :=
  ∃ rowMatch, after = { highlights with rowMatch }

/-- The rules stay as they were compiled. -/
theorem OnlyMatches.compiled {after : HighlightRuleSet} (only : highlights.OnlyMatches after) :
    after.compiled = highlights.compiled := by
  obtain ⟨rowMatch, rfl⟩ := only
  rfl

/-- And they stay in order. -/
theorem OnlyMatches.keeps {after : HighlightRuleSet} (only : highlights.OnlyMatches after)
    (compiled : highlights.Compiled) : after.Compiled := by
  obtain ⟨rowMatch, rfl⟩ := only
  exact ⟨compiled.length, compiled.short, compiled.active⟩

/-- Evaluation changes nothing but the cache. -/
theorem evaluateRows_onlyMatches (table : LogTable) (first last : Nat) :
    highlights.OnlyMatches (highlights.evaluateRows vformat table first last) := by
  unfold evaluateRows
  split
  · exact ⟨_, rfl⟩
  · exact ⟨_, rfl⟩

/-- So does a rebuild. -/
theorem rebuildAllMatches_onlyMatches (table : LogTable) :
    highlights.OnlyMatches (highlights.rebuildAllMatches vformat table) := by
  simp only [rebuildAllMatches]
  -- Only the cached matches are written.
  split
  · exact ⟨_, rfl⟩
  · obtain ⟨rowMatch, same⟩ := @evaluateRows_onlyMatches vformat
      { highlights with rowMatch := List.replicate table.rowCount noMatch } table 0
        (table.rowCount - 1)
    exact ⟨rowMatch, same⟩

/-- So do new rows. -/
theorem onRowsAppended_onlyMatches (table : LogTable) (firstNewRow lastNewRow : Nat) :
    highlights.OnlyMatches (highlights.onRowsAppended vformat table firstNewRow lastNewRow) := by
  unfold onRowsAppended
  -- Rows that were appended while nothing is compiled are not looked at.
  split
  · exact ⟨_, rfl⟩
  · split
    · exact ⟨_, rfl⟩
    · obtain ⟨rowMatch, same⟩ :=
        @evaluateRows_onlyMatches vformat (highlights.growTo (lastNewRow + 1)) table
        firstNewRow lastNewRow
      exact ⟨rowMatch, same⟩

/-- So do evictions. -/
theorem onRowsEvicted_onlyMatches (first last : Nat) :
    highlights.OnlyMatches (highlights.onRowsEvicted first last) := by
  unfold onRowsEvicted
  split
  · exact ⟨_, rfl⟩
  · exact ⟨_, rfl⟩

/-- A grown cache has the same entries. -/
theorem lastMatchFor_growTo (size row : Nat) :
    (highlights.growTo size).lastMatchFor row = highlights.lastMatchFor row := by
  unfold lastMatchFor growTo
  by_cases held : row < highlights.rowMatch.length
  · rw [List.getElem?_append_left held]
  · -- The new entries show no rule, like rows without an entry.
    rw [List.getElem?_append_right (by omega), List.getElem?_replicate,
      List.getElem?_eq_none (Nat.le_of_not_lt held)]
    split <;> simp

/-- The size of a grown cache. -/
theorem length_growTo (size : Nat) :
    (highlights.growTo size).rowMatch.length = max highlights.rowMatch.length size := by
  simp only [growTo, List.length_append, List.length_replicate]
  omega

/-- Evaluation keeps the size of the cache. -/
theorem length_evaluateRows (table : LogTable) (first last : Nat) :
    (highlights.evaluateRows vformat table first last).rowMatch.length =
      highlights.rowMatch.length := by
  unfold evaluateRows
  split
  · rfl
  · simp

/-- Evaluation of rows that the cache has room for: these show their winners, the others
what they showed. -/
theorem lastMatchFor_evaluateRows (compiled : highlights.Compiled) {table : LogTable}
    {first last : Nat}
    (ordered : first ≤ last) (room : last < highlights.rowMatch.length)
    (blank : highlights.compiled = [] → ∀ row, highlights.lastMatchFor row = none) (row : Nat) :
    (highlights.evaluateRows vformat table first last).lastMatchFor row =
      if first ≤ row ∧ row ≤ last then winner vformat highlights.compiled table row
      else highlights.lastMatchFor row := by
  unfold evaluateRows
  by_cases none_ : highlights.compiled.isEmpty
  · rw [if_pos (.inl none_)]
    -- Nothing is written: without rules there is no winner, and no row showed one.
    have absent : highlights.compiled = [] := List.isEmpty_iff.mp none_
    split
    · rw [blank absent row, winner_of_inactive (by simp [absent])]
    · rfl
  · rw [if_neg (by simp only [not_or]; exact ⟨none_, by omega, by omega⟩)]
    unfold lastMatchFor
    rw [List.getElem?_mapIdx]
    by_cases inside : first ≤ row ∧ row ≤ last
    · rw [if_pos inside, List.getElem?_eq_getElem (by omega)]
      simp [inside, ruleOfMatch_matchOf compiled.short]
    · rw [if_neg inside]
      cases highlights.rowMatch[row]? <;> simp [inside]

/-- A rebuilt cache shows every row's winner, and has the rows of the table. -/
theorem rebuildAllMatches_exact (compiled : highlights.Compiled) (table : LogTable) :
    (∀ row, (highlights.rebuildAllMatches vformat table).lastMatchFor row =
      if row < table.rowCount then winner vformat highlights.compiled table row else none) ∧
      (highlights.rebuildAllMatches vformat table).rowMatch.length = table.rowCount := by
  have blank (row : Nat) :
      { highlights with rowMatch := List.replicate table.rowCount noMatch }.lastMatchFor row =
        none := by
    unfold lastMatchFor
    rw [List.getElem?_replicate]
    split <;> simp
  unfold rebuildAllMatches
  by_cases nothing : highlights.compiled.isEmpty ∨ highlights.activeCount = 0 ∨ table.rowCount = 0
  · simp only [if_pos nothing]
    refine ⟨fun row => ?_, List.length_replicate⟩
    rw [blank row]
    split
    · rename_i bound
      -- There are rows, so it is the rules that are missing.
      refine (winner_of_inactive ?_).symm
      obtain none_ | inactive | empty := nothing
      · rw [List.isEmpty_iff.mp none_]
        rfl
      · rw [← compiled.active]
        exact inactive
      · omega
    · rfl
  · simp only [if_neg nothing]
    have some_ : table.rowCount ≠ 0 := fun none_ => nothing (.inr (.inr none_))
    have again : { highlights with rowMatch := List.replicate table.rowCount noMatch }.Compiled :=
      ⟨compiled.length, compiled.short, compiled.active⟩
    have room : table.rowCount - 1 < (List.replicate table.rowCount noMatch).length := by
      rw [List.length_replicate]
      omega
    refine ⟨fun row => ?_, by rw [length_evaluateRows]; exact List.length_replicate⟩
    rw [lastMatchFor_evaluateRows again (Nat.zero_le _) room (fun _ => blank) row, blank row]
    have ends : (0 ≤ row ∧ row ≤ table.rowCount - 1) ↔ row < table.rowCount := by omega
    simp only [ends]

/-- New rows show their winners, and the earlier ones what they showed. -/
theorem onRowsAppended_exact (compiled : highlights.Compiled) {table : LogTable} {firstNewRow : Nat}
    (grown : firstNewRow < table.rowCount) (fits : highlights.rowMatch.length ≤ firstNewRow) :
    (∀ row, (highlights.onRowsAppended vformat table firstNewRow (table.rowCount - 1)).lastMatchFor
      row =
      if firstNewRow ≤ row ∧ row < table.rowCount then winner vformat highlights.compiled table row
      else highlights.lastMatchFor row) ∧
      (highlights.onRowsAppended vformat table firstNewRow (table.rowCount - 1)).rowMatch.length =
        table.rowCount := by
  -- Rows that the cache has no entry for show no rule.
  have absent {row : Nat} (past : firstNewRow ≤ row) : highlights.lastMatchFor row = none := by
    unfold lastMatchFor
    rw [List.getElem?_eq_none (by omega)]
    rfl
  unfold onRowsAppended
  by_cases inactive : highlights.rules.isEmpty ∨ highlights.activeCount = 0
  · rw [if_pos inactive]
    refine ⟨fun row => ?_, by rw [length_growTo]; omega⟩
    rw [lastMatchFor_growTo]
    split
    · rename_i fresh
      have none_ : highlights.compiled.countP Option.isSome = 0 := by
        obtain empty | inactive := inactive
        · have length := compiled.length
          rw [List.isEmpty_iff.mp empty] at length
          rw [List.eq_nil_of_length_eq_zero length]
          rfl
        · rw [← compiled.active]
          exact inactive
      rw [winner_of_inactive none_, absent fresh.1]
    · rfl
  · rw [if_neg inactive, if_neg (by omega)]
    have again : (highlights.growTo (table.rowCount - 1 + 1)).Compiled :=
      ⟨compiled.length, compiled.short, compiled.active⟩
    have room : table.rowCount - 1 <
        (highlights.growTo (table.rowCount - 1 + 1)).rowMatch.length := by
      rw [length_growTo]
      omega
    refine ⟨fun row => ?_, by rw [length_evaluateRows, length_growTo]; omega⟩
    rw [lastMatchFor_evaluateRows again (by omega) room, lastMatchFor_growTo]
    · have ends : (firstNewRow ≤ row ∧ row ≤ table.rowCount - 1) ↔
          (firstNewRow ≤ row ∧ row < table.rowCount) := by omega
      simp only [ends]
      rfl
    · intro empty
      have length := compiled.length
      refine absurd (.inl ?_) inactive
      rw [show highlights.compiled = [] from empty] at length
      exact List.isEmpty_iff.mpr (List.eq_nil_of_length_eq_zero length.symm)

/-- After an eviction from the front every row shows what it showed before, under its new number. -/
theorem onRowsEvicted_exact {count : Nat} (some_ : count ≠ 0) (row : Nat) :
    (highlights.onRowsEvicted 0 (count - 1)).lastMatchFor row = highlights.lastMatchFor
      (row + count) := by
  unfold onRowsEvicted
  by_cases nothing : count - 1 < 0 ∨ highlights.rowMatch.length ≤ 0
  · rw [if_pos nothing]
    unfold lastMatchFor
    rw [List.getElem?_eq_none (by omega), List.getElem?_eq_none (by omega)]
  · rw [if_neg nothing]
    unfold lastMatchFor
    simp only [List.take_zero, List.nil_append, List.getElem?_drop]
    by_cases over_ : count ≤ highlights.rowMatch.length
    · have clamped : min (count - 1) (highlights.rowMatch.length - 1) + 1 + row = row + count := by
        omega
      rw [clamped]
    · -- The whole cache is gone, and it had nothing for the rows that are left.
      rw [List.getElem?_eq_none (by omega), List.getElem?_eq_none (by omega)]

/-- An eviction shortens the cache with the table. -/
theorem length_onRowsEvicted {count rows : Nat} (fits : highlights.rowMatch.length ≤ rows) :
    (highlights.onRowsEvicted 0 (count - 1)).rowMatch.length ≤ rows - count := by
  unfold onRowsEvicted
  split
  · omega
  · simp only [List.take_zero, List.nil_append, List.length_drop]
    omega

end Cache

end HighlightRuleSet

namespace HighlightSession

open HighlightRuleSet

section Runs

variable {vformat : Bytes → LogValue → Bytes}
    {makeStringMatcher : Bytes → LeafRuleMatch → Bytes → Bool}
  {session next : HighlightSession}

/-- Every row of the table shows the highest rule whose compiled predicate accepts it, and no other
row shows a rule. -/
def Exact (vformat : Bytes → LogValue → Bytes) (session : HighlightSession) : Prop :=
  (∀ row < session.table.rowCount, ∀ index, session.highlights.lastMatchFor row = some index ↔
    RuleAccepts vformat session.highlights.compiled session.table row index ∧
      ∀ later, RuleAccepts vformat session.highlights.compiled session.table row later →
        later ≤ index) ∧
  ∀ row, session.table.rowCount ≤ row → session.highlights.lastMatchFor row = none

/-- The cache is exact where it shows the winners. -/
theorem exact_iff : session.Exact vformat ↔
    ∀ row, session.highlights.lastMatchFor row =
      if row < session.table.rowCount then winner vformat session.highlights.compiled session.table
        row else none := by
  -- Inside the table the cached hit is the winner; outside both are none.
  constructor
  · rintro ⟨inside, outside⟩ row
    split
    · rename_i bound
      apply Option.ext
      intro index
      rw [inside row bound, winner_eq_some_iff]
    · rename_i past
      exact outside row (Nat.le_of_not_lt past)
  · intro shows
    refine ⟨fun row bound index => ?_, fun row past => ?_⟩
    · rw [shows row, if_pos bound, winner_eq_some_iff]
    · rw [shows row, if_neg (by omega)]

variable (vformat makeStringMatcher) in
/-- A step that leaves the cache right. The cache is rebuilt with a table at hand, and only then:
new rows and evictions must not change the winners of the rows that stay, a reset must not leave
rows with a winner behind, and a call without a table must not change a winner. -/
def KeepsWinners (session : HighlightSession) : HighlightStep → Prop
  -- Without a table nothing is matched, so no row may have a winner.
  | .setRules rules columns false =>
    ∀ row < session.table.rowCount,
      winner vformat ({ session.highlights with rules }.recompileAll makeStringMatcher columns
        none).compiled
        session.table row = none
  | .rebindColumns columns false =>
    session.highlights.rules.isEmpty = false → ∀ row < session.table.rowCount,
      winner vformat (session.highlights.recompileAll makeStringMatcher columns none).compiled
        session.table row =
        winner vformat session.highlights.compiled session.table row
  -- The rows that were there keep their winners.
  | .rowsInserted table =>
    ∀ row < session.table.rowCount, winner vformat session.highlights.compiled table row =
      winner vformat session.highlights.compiled session.table row
  | .rowsRemoved count =>
    ∀ row < session.table.rowCount - count,
      winner vformat session.highlights.compiled (session.table.evictPrefixRows count) row =
        winner vformat session.highlights.compiled session.table (row + count)
  | .modelReset table =>
    ∀ row < table.rowCount, winner vformat session.highlights.compiled table row = none
  | _ => True

/-- The compiled rules are in order, and the cache has no more entries than the table has rows. -/
structure Sized (session : HighlightSession) : Prop where
  compiled : session.highlights.Compiled
  fits : session.highlights.rowMatch.length ≤ session.table.rowCount

/-- A session begins without rules. -/
theorem initial_sized (table : LogTable) : (initial table).Sized :=
  ⟨⟨rfl, Nat.zero_le _, rfl⟩, Nat.zero_le _⟩

/-- Without rules no row has a winner. -/
theorem initial_exact (table : LogTable) : (initial table).Exact vformat :=
  ⟨fun row _ index => ⟨fun shown =>
    by simp [initial, HighlightRuleSet.empty, lastMatchFor] at shown,
    fun won => by obtain ⟨⟨predicate, held, -⟩, -⟩ := won; simp [initial, HighlightRuleSet.empty] at held⟩,
    fun _ _ => rfl⟩

/-- An eviction leaves the rows behind the evicted ones. -/
theorem rowCount_evictPrefixRows (table : LogTable) (count : Nat) :
    (table.evictPrefixRows count).rowCount = table.rowCount - count := by
  unfold LogTable.rowCount
  rw [LogTable.evictPrefixRows_lines, List.length_drop]

/-- A rebuilt session. -/
theorem rebuildAllMatches_session {highlights : HighlightRuleSet} (compiled : highlights.Compiled)
    (table : LogTable) :
    (⟨highlights.rebuildAllMatches vformat table, table⟩ : HighlightSession).Sized ∧
      (⟨highlights.rebuildAllMatches vformat table, table⟩ : HighlightSession).Exact vformat := by
  have only := @rebuildAllMatches_onlyMatches vformat highlights table
  obtain ⟨shows, length⟩ := @rebuildAllMatches_exact vformat _ compiled table
  refine ⟨⟨only.keeps compiled, length.le⟩, exact_iff.mpr fun row => ?_⟩
  rw [only.compiled]
  exact shows row

/-- Without rules nothing is compiled. -/
theorem Sized.compiled_nil (sized : session.Sized)
    (none_ : session.highlights.rules.isEmpty = true) :
    session.highlights.compiled = [] := by
  have length := sized.compiled.length
  rw [List.isEmpty_iff.mp none_] at length
  exact List.eq_nil_of_length_eq_zero length

/-- Rebinding without rules resets what is empty already. -/
theorem Sized.rebind_nil (sized : session.Sized) (none_ : session.highlights.rules.isEmpty = true)
    {table : LogTable} (rows : table.rowCount = session.table.rowCount) :
    (⟨{ session.highlights with
      compiled := []
      resolvedColumn := []
      inactiveCount := 0
      activeCount := 0 },
        table⟩ : HighlightSession).Sized ∧
      ((⟨{ session.highlights with
        compiled := []
        resolvedColumn := []
        inactiveCount := 0
        activeCount := 0 },
        table⟩ : HighlightSession).Exact vformat ↔ session.Exact vformat) := by
  refine ⟨⟨⟨by simp [List.isEmpty_iff.mp none_], Nat.zero_le _, rfl⟩, rows ▸ sized.fits⟩, ?_⟩
  rw [exact_iff, exact_iff]
  -- Neither before nor after is there a winner.
  simp only [sized.compiled_nil none_, @winner_of_inactive vformat [] _ _ rfl, ite_self]
  rfl

/-- Every step keeps the sizes. -/
theorem step_sized {item : HighlightStep} (sized : session.Sized)
    (done : session.step makeStringMatcher vformat item = some next) : next.Sized := by
  cases item with
  -- With the table every row is matched again; without it no row is.
  | setRules rules columns withTable =>
    obtain rfl := Option.some.inj done
    have compiled := @recompileAll_compiled makeStringMatcher { session.highlights with rules }
      columns
      (session.tablePointer withTable)
    cases withTable with
    | true => exact (rebuildAllMatches_session compiled session.table).1
    | false => exact ⟨⟨compiled.length, compiled.short, compiled.active⟩, Nat.zero_le _⟩
  -- A set without rules keeps its matches; any other one is compiled again.
  | rebindColumns columns withTable =>
    obtain rfl := Option.some.inj done
    unfold HighlightRuleSet.rebindColumns
    split
    · rename_i none_
      exact (@Sized.rebind_nil vformat _ sized none_ _ rfl).1
    · have compiled := @recompileAll_compiled makeStringMatcher session.highlights columns
        (session.tablePointer withTable)
      cases withTable with
      | true => exact (rebuildAllMatches_session compiled session.table).1
      | false => exact ⟨compiled, sized.fits⟩
  -- The new rows are matched behind the old ones.
  | rowsInserted table =>
    simp only [step] at done
    split at done
    · cases done
    · obtain rfl := Option.some.inj done
      have only := @onRowsAppended_onlyMatches vformat session.highlights table
        session.table.rowCount
        (table.rowCount - 1)
      have length := (@onRowsAppended_exact vformat _ sized.compiled table _
        (by omega) sized.fits).2
      exact ⟨only.keeps sized.compiled, length.le⟩
  -- As many matches go as rows, from the front.
  | rowsRemoved count =>
    simp only [step] at done
    split at done
    · cases done
    · rename_i inside
      obtain rfl := Option.some.inj done
      have only := @onRowsEvicted_onlyMatches session.highlights 0 (count - 1)
      refine ⟨only.keeps sized.compiled, ?_⟩
      show _ ≤ (session.table.evictPrefixRows count).rowCount
      rw [rowCount_evictPrefixRows]
      exact length_onRowsEvicted sized.fits
  | modelReset table =>
    obtain rfl := Option.some.inj done
    exact ⟨⟨sized.compiled.length, sized.compiled.short, sized.compiled.active⟩, Nat.zero_le _⟩
  | columnsInserted table =>
    simp only [step] at done
    -- The widened table keeps its rows, so the rules are bound again over the same ones.
    split at done
    · rename_i rows
      obtain rfl := Option.some.inj done
      unfold HighlightRuleSet.rebindColumns
      split
      · rename_i none_
        exact (@Sized.rebind_nil vformat _ sized none_ _ rows).1
      · exact (rebuildAllMatches_session (recompileAll_compiled _ _ _) table).1
    · cases done

/-- A cleared cache is exact where no row has a winner. -/
theorem cleared_exact_iff {highlights : HighlightRuleSet} {table : LogTable}
    (cleared : ∀ row, highlights.lastMatchFor row = none) :
    (⟨highlights, table⟩ : HighlightSession).Exact vformat ↔
      ∀ row < table.rowCount, winner vformat highlights.compiled table row = none := by
  -- With nothing cached, exactness says that no row has a winner.
  rw [exact_iff]
  constructor
  · intro shows row bound
    have shown := shows row
    rw [if_pos bound] at shown
    exact shown.symm.trans (cleared row)
  · intro nobody row
    rw [show highlights.lastMatchFor row = none from cleared row]
    split
    · rename_i bound
      exact (nobody row bound).symm
    · rfl

/-- A cache that is kept is exact where the new winners are the old ones. -/
theorem Exact.kept_iff (exact_ : session.Exact vformat) (highlights : HighlightRuleSet)
    (kept : ∀ row, highlights.lastMatchFor row = session.highlights.lastMatchFor row) :
    (⟨highlights, session.table⟩ : HighlightSession).Exact vformat ↔
      ∀ row < session.table.rowCount, winner vformat highlights.compiled session.table row =
        winner vformat session.highlights.compiled session.table row := by
  -- What is cached was exact before, so it stays exact where the winners stay.
  rw [exact_iff]
  constructor
  · intro shows row bound
    have shown := shows row
    have before := exact_iff.mp exact_ row
    rw [if_pos bound] at shown before
    exact (shown.symm.trans (kept row)).trans before
  · intro same row
    refine ((kept row).trans (exact_iff.mp exact_ row)).trans ?_
    split
    · rename_i bound
      exact (same row bound).symm
    · rfl

/-- New rows leave the cache exact where they change no winner of an earlier row. -/
theorem Exact.rowsInserted_iff (exact_ : session.Exact vformat) (sized : session.Sized)
    {table : LogTable}
    (grown : session.table.rowCount < table.rowCount) :
    (⟨session.highlights.onRowsAppended vformat table session.table.rowCount (table.rowCount - 1),
        table⟩ : HighlightSession).Exact vformat ↔
      ∀ row < session.table.rowCount, winner vformat session.highlights.compiled table row =
        winner vformat session.highlights.compiled session.table row := by
  have shows := exact_iff.mp exact_
  have only := @onRowsAppended_onlyMatches vformat session.highlights table session.table.rowCount
    (table.rowCount - 1)
  have after := (@onRowsAppended_exact vformat _ sized.compiled table _ grown sized.fits).1
  rw [exact_iff, only.compiled]
  constructor
  · intro final row bound
    -- An earlier row shows what it showed before.
    have shown := final row
    have before := shows row
    have later : row < table.rowCount := by omega
    rw [after row, if_neg (by omega), if_pos later] at shown
    rw [if_pos bound] at before
    exact shown.symm.trans before
  · intro same row
    refine (after row).trans ?_
    by_cases fresh : session.table.rowCount ≤ row ∧ row < table.rowCount
    · rw [if_pos fresh, if_pos fresh.2]
    · rw [if_neg fresh, shows row]
      by_cases old : row < session.table.rowCount
      · have later : row < table.rowCount := by omega
        rw [if_pos old, if_pos later, same row old]
      · have past : ¬row < table.rowCount := by omega
        rw [if_neg old, if_neg past]

/-- An eviction leaves the cache exact where the rows that stay keep their winners. -/
theorem Exact.rowsRemoved_iff (exact_ : session.Exact vformat) {count : Nat} (some_ : count ≠ 0) :
    (⟨session.highlights.onRowsEvicted 0 (count - 1),
        session.table.evictPrefixRows count⟩ : HighlightSession).Exact vformat ↔
      ∀ row < session.table.rowCount - count,
        winner vformat session.highlights.compiled (session.table.evictPrefixRows count) row =
          winner vformat session.highlights.compiled session.table (row + count) := by
  have shows := exact_iff.mp exact_
  have only := @onRowsEvicted_onlyMatches session.highlights 0 (count - 1)
  have after := @onRowsEvicted_exact session.highlights count some_
  rw [exact_iff, only.compiled]
  constructor
  · -- What row `count` further on showed is what the row shows now.
    intro final row bound
    have shown := final row
    have before := shows (row + count)
    rw [after row, rowCount_evictPrefixRows, if_pos bound] at shown
    rw [if_pos (by omega)] at before
    exact shown.symm.trans before
  · -- Behind the last row there is nothing to show, before or after.
    intro same row
    refine (after row).trans ((shows (row + count)).trans ?_)
    rw [rowCount_evictPrefixRows]
    by_cases bound : row < session.table.rowCount - count
    · rw [if_pos bound, if_pos (by omega), same row bound]
    · rw [if_neg bound, if_neg (by omega)]

/-- From an exact cache, a step leads to an exact cache exactly where it keeps the winners. -/
theorem step_exact_iff {item : HighlightStep} (sized : session.Sized)
    (exact_ : session.Exact vformat)
    (done : session.step makeStringMatcher vformat item = some next) :
    next.Exact vformat ↔ session.KeepsWinners vformat makeStringMatcher item := by
  cases item with
  -- Without the table the matches are empty until something fills them.
  | setRules rules columns withTable =>
    obtain rfl := Option.some.inj done
    have compiled := @recompileAll_compiled makeStringMatcher { session.highlights with rules }
      columns
      (session.tablePointer withTable)
    cases withTable with
    | true => exact iff_of_true (rebuildAllMatches_session compiled session.table).2 trivial
    | false => exact cleared_exact_iff fun _ => rfl
  | rebindColumns columns withTable =>
    obtain rfl := Option.some.inj done
    unfold HighlightRuleSet.rebindColumns
    -- A set without rules has no matches that could go wrong.
    by_cases none_ : session.highlights.rules.isEmpty = true
    · rw [if_pos none_]
      refine iff_of_true ((@Sized.rebind_nil vformat _ sized none_ _ rfl).2.mpr exact_) ?_
      cases withTable with
      | true => trivial
      | false => exact fun some_ => absurd none_ (by simp [some_])
    · have compiled := @recompileAll_compiled makeStringMatcher session.highlights columns
        (session.tablePointer withTable)
      rw [if_neg none_]
      cases withTable with
      | true => exact iff_of_true (rebuildAllMatches_session compiled session.table).2 trivial
      -- Compiled rules whose rows have not been matched again: right just if no row wins or the
      -- winners stay.
      | false =>
        have rules : session.highlights.rules.isEmpty = false := by simpa using none_
        refine (exact_.kept_iff (session.highlights.recompileAll makeStringMatcher columns none)
          fun _ => rfl).trans ?_
        exact ⟨fun same _ => same, fun same => same rules⟩
  | rowsInserted table =>
    simp only [step] at done
    split at done
    · cases done
    · obtain rfl := Option.some.inj done
      exact exact_.rowsInserted_iff sized (by omega)
  | rowsRemoved count =>
    simp only [step] at done
    split at done
    · cases done
    · obtain rfl := Option.some.inj done
      exact exact_.rowsRemoved_iff (by omega)
  | modelReset table =>
    obtain rfl := Option.some.inj done
    exact cleared_exact_iff fun _ => rfl
  -- Rules are matched again over the widened table, or there are none.
  | columnsInserted table =>
    simp only [step] at done
    split at done
    · rename_i rows
      obtain rfl := Option.some.inj done
      refine iff_of_true ?_ trivial
      unfold HighlightRuleSet.rebindColumns
      split
      · rename_i none_
        exact (@Sized.rebind_nil vformat _ sized none_ _ rows).2.mpr exact_
      · exact (rebuildAllMatches_session (recompileAll_compiled _ _ _) table).2
    · cases done

/-- Two rows show the same to every predicate. -/
structure SameCells (vformat : Bytes → LogValue → Bytes) (table : LogTable) (row : Nat)
    (other : LogTable)
    (otherRow : Nat) : Prop where
  values : ∀ column, other.getValue otherRow column = table.getValue row column
  ids : ∀ column, other.getEnumValueId otherRow column = table.getEnumValueId row column
  texts : ∀ column, other.getValueOrFormatted vformat otherRow column =
    table.getValueOrFormatted vformat row column

/-- They meet the same predicates. -/
theorem SameCells.matchesRow_eq {table other : LogTable} {row otherRow : Nat}
    (same : SameCells vformat table row other otherRow) (predicate : RowPredicate) :
    matchesRow vformat other otherRow predicate = matchesRow vformat table row predicate :=
  matchesRow_of_cell (same.values _) (same.texts _) fun _ _ => same.ids _

/-- And they have the same winner. -/
theorem SameCells.winner_eq {table other : LogTable} {row otherRow : Nat}
    (same : SameCells vformat table row other otherRow) (compiled : List (Option RowPredicate)) :
    winner vformat compiled other otherRow = winner vformat compiled table row := by
  apply Option.ext
  intro index
  rw [winner_eq_some_iff, winner_eq_some_iff]
  simp only [RuleAccepts, same.matchesRow_eq]

/-- New rows keep the winners where they leave the cells of the earlier rows as they were. -/
theorem keepsWinners_rowsInserted {table : LogTable}
    (same : ∀ row < session.table.rowCount, SameCells vformat session.table row table row) :
    session.KeepsWinners vformat makeStringMatcher (.rowsInserted table) :=
  fun row bound => (same row bound).winner_eq session.highlights.compiled

/-- The text of a cell is a matter of its value and of the format of its column. -/
theorem getValueOrFormatted_eq (vformat : Bytes → LogValue → Bytes) (table : LogTable)
    (row column : Nat) :
    table.getValueOrFormatted vformat row column =
      match table.getValue row column with
      | .string text => text
      | .monostate => []
      | value =>
        ((table.columns[column]?.map (·.printFormat)).map fun format =>
          LogTable.formatLogValue vformat format value).getD [] := by
  unfold LogTable.getValueOrFormatted LogTable.getValue
  split
  · rename_i ids line hasIds hasLine
    cases LogTable.firstValue line table.context ids <;> cases table.columns[column]? <;> rfl
  · rename_i absent
    -- A cell without ids or without a row has no value and no text.
    cases hasIds : table.columnKeyIds[column]? with
    | none => rfl
    | some ids =>
      cases hasLine : table.lines[row]? with
      | none => rfl
      | some line => exact absurd hasLine (absent ids line hasIds)

/-- The text of a cell is a matter of its value and its column. -/
theorem getValueOrFormatted_congr {table other : LogTable} {row otherRow column : Nat}
    (value : other.getValue otherRow column = table.getValue row column)
    (columns : other.columns = table.columns) :
    other.getValueOrFormatted vformat otherRow column = table.getValueOrFormatted vformat row
      column := by
  rw [getValueOrFormatted_eq, getValueOrFormatted_eq, value, columns]

/-- The cells of a survivor. -/
theorem sameCells_of_survivors {table : LogTable} {count : Nat}
    (kept : table.EvictionKeepsSurvivors count)
    (row : Nat) : SameCells vformat table (row + count) (table.evictPrefixRows count) row := by
  obtain ⟨keyIds, -⟩ := table.evictPrefixRows_frame count
  have columns := LogModel.evictPrefixRows_columns table count
  -- The row in front of the cut is the row that moves to the front.
  have line : (table.evictPrefixRows count).lines[row]? = table.lines[row + count]? := by
    rw [LogTable.evictPrefixRows_lines, List.getElem?_drop, Nat.add_comm]
  refine ⟨fun column => kept.cells row column, fun column => ?_, fun column => ?_⟩
  · unfold LogTable.getEnumValueId
    rw [keyIds, line]
  · exact getValueOrFormatted_congr (kept.cells row column) columns

/-- An eviction keeps the winners where no survivor is a held stream line below the boundary. -/
theorem keepsWinners_rowsRemoved (parse : TimestampParser) {start : LogTable} {ops : List TableOp}
    (reached : session.table ∈ LogTable.run parse start ops) {count : Nat}
    (past : session.table.SurvivorsPastBoundary count) :
    session.KeepsWinners vformat makeStringMatcher (.rowsRemoved count) := by
  have kept := (LogTable.run_eviction_keepsSurvivors_iff parse start ops count session.table
    reached).mpr past
  exact fun row _ => (sameCells_of_survivors kept row).winner_eq session.highlights.compiled

/-- The highlight cache is exact in every state on the way of a run, if and only if each step of the
run keeps the winners of the rows that it does not evaluate. -/
theorem run_exact_iff {table : LogTable} {steps : List HighlightStep} {final : HighlightSession}
    (done : steps.foldlM (step makeStringMatcher vformat) (initial table) = some final) :
    CleanRun (step makeStringMatcher vformat) (KeepsWinners vformat makeStringMatcher)
      (initial table) steps ↔
      ∀ first rest middle, steps = first ++ rest →
        first.foldlM (step makeStringMatcher vformat) (initial table) = some middle →
          middle.Exact vformat := by
  -- The condition on a step is equivalent to exactness after it, so it can be read both ways.
  have preserves : ∀ (session : HighlightSession) item next,
      (session.Sized ∧ session.Exact vformat) →
        session.KeepsWinners vformat makeStringMatcher item →
      session.step makeStringMatcher vformat item = some next → next.Sized ∧ next.Exact vformat :=
    fun session item next holds keeps begun =>
      ⟨step_sized holds.1 begun, (step_exact_iff holds.1 holds.2 begun).mpr keeps⟩
  have fails : ∀ (session : HighlightSession) item next, (session.Sized ∧ session.Exact vformat) →
      session.step makeStringMatcher vformat item = some next → next.Exact vformat →
      session.KeepsWinners vformat makeStringMatcher item :=
    fun session item next holds begun exact_ => (step_exact_iff holds.1 holds.2 begun).mp exact_
  exact cleanRun_iff_forall preserves (fun _ holds => holds.2) fails
    ⟨initial_sized table, initial_exact table⟩ done

end Runs

/-- A rule that highlights the level `Info`. -/
def infoHighlight : HighlightRule := { infoRule with enabled := true }

/-- The table before the first batch. -/
def bareLevelTable : LogTable := .initial ⟨[levelColumn], ⟨-1, false⟩⟩

/-- A rule is set, a row arrives, and the columns are announced. -/
def announcedSteps : List HighlightStep :=
  [.setRules [infoHighlight] [levelColumn] true, .rowsInserted levelTable,
    .columnsInserted levelTable]

/-- The row shows the rule. -/
theorem announcedSteps_exact :
    ∃ final, announcedSteps.foldlM (step (fun _ _ _ => false) fun _ _ => [])
      (initial bareLevelTable) = some final ∧
      final.highlights.lastMatchFor 0 = some 0 ∧ final.Exact fun _ _ => [] := by
  refine ⟨_, rfl, by decide, ?_⟩
  have clean : CleanRun (step (fun _ _ _ => false) fun _ _ => [])
      (KeepsWinners (fun _ _ => []) fun _ _ _ =>
        false) (initial bareLevelTable) announcedSteps := by
    refine ⟨trivial, fun next begun => ⟨?_, fun later grown => ⟨trivial, fun _ _ => trivial⟩⟩⟩
    -- There are no earlier rows.
    obtain rfl := Option.some.inj begun
    exact fun row bound => absurd bound (Nat.not_lt_zero row)
  exact (run_exact_iff rfl).mp clean announcedSteps [] _ (List.append_nil _).symm rfl

/-- The same, and then another configuration is loaded while the row stays. -/
def reloadedSteps : List HighlightStep :=
  announcedSteps ++ [.modelReset (levelTable.reloadConfiguration ⟨[levelColumn], ⟨-1, false⟩⟩)]

/-- The rule accepts the row, which shows no rule. -/
theorem reloadedSteps_lose_match :
    ∃ final, reloadedSteps.foldlM (step (fun _ _ _ => false) fun _ _ => [])
      (initial bareLevelTable) = some final ∧
      RuleAccepts (fun _ _ => []) final.highlights.compiled final.table 0 0 ∧
      final.highlights.lastMatchFor 0 = none ∧ ¬final.Exact fun _ _ => [] := by
  have accepting : ∃ final,
      reloadedSteps.foldlM (step (fun _ _ _ => false) fun _ _ => []) (initial bareLevelTable) =
        some final ∧
        final.table.rowCount = 1 ∧
          RuleAccepts (fun _ _ => []) final.highlights.compiled final.table 0 0 ∧
        final.highlights.compiled.length = 1 ∧ final.highlights.lastMatchFor 0 = none :=
    ⟨_, rfl, by decide, ⟨_, rfl, by decide⟩, by decide, rfl⟩
  obtain ⟨final, done, rows, hit, single, missing⟩ := accepting
  refine ⟨final, done, hit, missing, fun exact_ => ?_⟩
  -- An exact cache would show the only rule.
  have shown := (exact_.1 0 (by omega) 0).mpr ⟨hit, fun later other => by
    have bound := other.lt
    omega⟩
  rw [missing] at shown
  cases shown

end HighlightSession

end Loglib
