import Loglib.Basic.Runs
import Loglib.Table.AutoDetection

/-! The enumeration work as a run of small steps: what each step keeps, the passes over
the columns keep. -/

namespace Loglib

/-- A candidate without strings never becomes a time column. -/
theorem EnumCandidateTracker.routeNoStringBail_ne_time (tracker : EnumCandidateTracker) :
    tracker.routeNoStringBail ≠ .time := by
  unfold routeNoStringBail
  simp only
  split_ifs <;> exact ColumnType.noConfusion

namespace LogTable

/-- One piece of the enumeration work. No column is retyped from or to `Time`. -/
inductive EnumStep (old : LogTable) : LogTable → Prop where
  | retype (columnIndex : Nat) (type : ColumnType)
    (plain : ∀ column, old.columns[columnIndex]? = some column →
      column.type ≠ .time) (other : type ≠ .time) :
    EnumStep old (old.setColumnType columnIndex type)
  | track (trackerKey : KeyId) (tracker : Option EnumCandidateTracker) :
    EnumStep old (old.setTracker trackerKey tracker)
  | wire (names : List Bytes) : EnumStep old (old.wireColumnKeys names).1
  | encode (aliasKeys : List KeyId) (rowBegin : Nat) (healthKey : KeyId) :
    EnumStep old (old.encodeColumnRange aliasKeys rowBegin healthKey).1
  | rank (columnIndex : Nat) : EnumStep old (old.refreshLevelRankCache columnIndex)
  | level (columnIndex : Nat) : EnumStep old (old.maybePromoteToLevel columnIndex)
  | demote {next : LogTable} (columnIndex : Nat) (recordForBatch : Bool)
    (done : old.demoteColumnFromEnum columnIndex recordForBatch = some next) : EnumStep old next

/-- Some pieces of the enumeration work, one after the other. -/
def EnumSteps : LogTable → LogTable → Prop := Relation.ReflTransGen EnumStep

namespace EnumSteps

variable {first second third : LogTable}

/-- No work. -/
@[refl] theorem refl (table : LogTable) : EnumSteps table table := Relation.ReflTransGen.refl

/-- One piece of work. -/
theorem of_step (step : EnumStep first second) : EnumSteps first second :=
  Relation.ReflTransGen.single step

/-- More work. -/
theorem trans (one : EnumSteps first second) (two : EnumSteps second third) :
    EnumSteps first third :=
  Relation.ReflTransGen.trans one two

/-- What every piece of work keeps, all of it keeps. -/
theorem keeps {kept : LogTable → LogTable → Prop} (same : ∀ table, kept table table)
    (compose : ∀ {first second third}, kept first second → kept second third → kept first third)
    (step : ∀ {old new}, EnumStep old new → kept old new) (work : EnumSteps first second) :
    kept first second := by
  induction work with
  | refl => exact same first
  | tail _ last ih => exact compose ih (step last)

end EnumSteps

section Passes

variable {table next : LogTable} {columnIndex : Nat}

/-- A promotion of a column that is not a time column. -/
theorem steps_promoteColumnToEnum
    (plain : ∀ column, table.columns[columnIndex]? = some column → column.type ≠ .time)
    (done : table.promoteColumnToEnum columnIndex = some next) : EnumSteps table next := by
  -- A promotion sets the type, wires the keys, encodes the rows, and then demotes, ranks or stays.
  unfold promoteColumnToEnum at done
  split at done
  · cases done
    exact .refl table
  · rename_i column found
    split at done
    · cases done
      exact .refl table
    · have typed : EnumSteps table (table.setColumnType columnIndex .enumeration) :=
        .of_step (.retype columnIndex .enumeration plain ColumnType.noConfusion)
      have wired := typed.trans (.of_step (.wire column.keys))
      split at done
      · rename_i result keyless
        cases done
        rwa [keyless] at wired
      · rename_i result canonical keyed
        rw [keyed] at wired
        have encoded := wired.trans (.of_step (.encode (result.registeredKeys column) 0 canonical))
        -- Too many values demote; else the column may turn into a level column.
        obtain demoted | ⟨-, same | same⟩ := encodePromoted_cases done
        · exact encoded.trans (.of_step (.demote columnIndex true demoted))
        · exact same ▸ encoded
        · exact same ▸ encoded.trans (.of_step (.level columnIndex))

/-- The new rows of a dictionary column are encoded. -/
theorem steps_encodeActiveColumn {oldLineCount : Nat} {column : Column} {repaint : Bool}
    (done : table.encodeActiveColumn oldLineCount columnIndex column = some (next, repaint)) :
    EnumSteps table next := by
  unfold encodeActiveColumn at done
  split at done
  · cases done
    exact .refl table
  · rename_i canonical aliases ids
    -- The new rows are encoded first.
    have encoded : EnumSteps table
        (table.encodeColumnRange (canonical :: aliases) oldLineCount canonical).1 :=
      .of_step (.encode (canonical :: aliases) oldLineCount canonical)
    simp only at done
    -- What the health of the dictionary says decides how it goes on.
    split at done
    · split at done
      · obtain ⟨demoted, converted, same⟩ := Option.map_eq_some_iff.mp done
        cases same
        exact encoded.trans (.of_step (.demote columnIndex true converted))
      · cases done
        exact encoded
    · split at done
      · obtain ⟨demoted, converted, same⟩ := Option.map_eq_some_iff.mp done
        cases same
        exact encoded.trans (.of_step (.demote columnIndex true converted))
      · cases done
        refine encoded.trans (.trans ?_ (.of_step (.rank columnIndex)))
        split
        · exact .of_step (.level columnIndex)
        · exact .refl _

/-- The new rows of a candidate are scanned. -/
theorem steps_scanCandidateColumn {oldLineCount : Nat} {column : Column} {repaint : Bool}
    (plain : ∀ column, table.columns[columnIndex]? = some column → column.type ≠ .time)
    (done : table.scanCandidateColumn oldLineCount columnIndex column = some (next, repaint)) :
    EnumSteps table next := by
  -- Every branch settles the tracker, and some of them set a type as well.
  have tracked (trackerKey : KeyId) (tracker : Option EnumCandidateTracker) :
      EnumSteps table (table.setTracker trackerKey tracker) := .of_step (.track trackerKey tracker)
  have retyped (trackerKey : KeyId) (tracker : Option EnumCandidateTracker) {type : ColumnType}
    (other : type ≠ .time) :
      EnumSteps table ((table.setTracker trackerKey tracker).setColumnType columnIndex type) :=
    (tracked trackerKey tracker).trans (.of_step (.retype columnIndex type plain other))
  unfold scanCandidateColumn at done
  split at done
  · cases done
    exact .refl table
  · cases done
    exact .refl table
  · simp only at done
    split at done
    · cases done
      exact retyped _ _ ColumnType.noConfusion
    · -- A tracker that has seen enough promotes.
      split at done
      · obtain ⟨promoted, finished, same⟩ := Option.map_eq_some_iff.mp done
        cases same
        exact (tracked _ none).trans (steps_promoteColumnToEnum plain finished)
      · split at done
        · cases done
          exact tracked _ _
        · split at done
          · cases done
            exact tracked _ _
          · split at done
            · cases done
              exact retyped _ _ (EnumCandidateTracker.routeNoStringBail_ne_time _)
            · split at done
              · cases done
                exact retyped _ _ ColumnType.noConfusion
              · cases done
                exact tracked _ _

/-- The enumeration pass over one column. -/
theorem steps_enumPassColumn {oldLineCount : Nat} {walk later : BackfillWalk}
    (done : enumPassColumn oldLineCount walk columnIndex = some later) :
    EnumSteps walk.table later.table := by
  unfold enumPassColumn at done
  simp only at done
  split at done
  · cases done
    exact .refl _
  · rename_i column found
    split at done
    · cases done
      exact .refl _
    · obtain ⟨⟨table, repaint⟩, finished, same⟩ := Option.map_eq_some_iff.mp done
      -- A step is one of an active column, of a candidate, or none.
      have work : EnumSteps walk.table table := by
        split at finished
        · exact steps_encodeActiveColumn finished
        · split at finished
          · rename_i candidate
            apply steps_scanCandidateColumn _ finished
            intro other held
            rw [← Option.some.inj (found.symm.trans held), candidate.1]
            exact ColumnType.noConfusion
          · cases finished
            exact .refl _
      simp only at same
      split at same
      · cases same
        exact work
      · cases same
        exact work

/-- The enumeration pass of a batch. -/
theorem steps_runEnumPass {oldLineCount : Nat} {walk later : BackfillWalk}
    (done : runEnumPass oldLineCount walk = some later) : EnumSteps walk.table later.table := by
  unfold runEnumPass at done
  split at done
  · -- Without enum columns there is no pass.
    cases done
    exact .refl _
  · have kept : ∀ (state : BackfillWalk) position after, EnumSteps walk.table state.table →
        enumPassColumn oldLineCount state position = some after →
          EnumSteps walk.table after.table :=
      fun state position after work passed => work.trans (steps_enumPassColumn passed)
    exact foldlM_invariant kept (.refl _) done

/-- A candidate is decided from a tracker of its rows. -/
theorem steps_settleCandidate {tracker : EnumCandidateTracker}
    (plain : ∀ column, table.columns[columnIndex]? = some column → column.type ≠ .time)
    (done : table.settleCandidate columnIndex tracker = some next) : EnumSteps table next := by
  -- The column gives up, is promoted, takes another type, or waits for more rows.
  unfold settleCandidate at done
  split at done
  · cases done
    exact .of_step (.retype columnIndex .string plain ColumnType.noConfusion)
  · split at done
    · exact steps_promoteColumnToEnum plain done
    · split at done
      · cases done
        exact .of_step (.retype columnIndex _ plain
          (EnumCandidateTracker.routeNoStringBail_ne_time _))
      · cases done
        exact .refl table

/-- A candidate that survived to the end of the parse is settled. -/
theorem steps_finalizeCandidate (done : table.finalizeCandidate columnIndex = some next) :
    EnumSteps table next := by
  unfold finalizeCandidate at done
  split at done
  · cases done
    exact .refl table
  · rename_i tracker surviving
    refine steps_settleCandidate (fun column held => ?_) done
    -- Only a candidate of unknown type has a tracker that survives.
    unfold survivingTracker at surviving
    simp only [held] at surviving
    split at surviving
    · cases surviving
    · rename_i open_
      rintro time
      exact open_ (.inl (by rw [time]; exact ColumnType.noConfusion))

/-- A dictionary column of poor health is demoted at the end of the parse. -/
theorem steps_finalizeHealth (done : table.finalizeHealth columnIndex = some next) :
    EnumSteps table next := by
  -- Only a column whose health has failed is demoted.
  unfold finalizeHealth at done
  split at done
  · cases done
    exact .refl table
  · split at done
    · cases done
      exact .refl table
    · split at done
      · cases done
        exact .refl table
      · split at done
        · exact .of_step (.demote columnIndex false done)
        · cases done
          exact .refl table

/-- The end of a parse settles the candidates and demotes, and forgets its trackers then. -/
theorem steps_finalizeAutoDetection (done : table.finalizeAutoDetection = some next) :
    ∃ settled, EnumSteps table settled ∧
      next = { settled with enumTrackers := fun _ => none, isStreaming := false } := by
  unfold finalizeAutoDetection at done
  split at done
  · cases done
  · rename_i swept candidates
    split at done
    · cases done
    · rename_i settled healths
      cases done
      -- Both loops are made of steps.
      have first : EnumSteps table swept := by
        have kept : ∀ (state : LogTable) position after, EnumSteps table state →
            state.finalizeCandidate position = some after → EnumSteps table after :=
          fun state position after work passed => work.trans (steps_finalizeCandidate passed)
        exact foldlM_invariant kept (.refl _) candidates
      have second : EnumSteps table settled := by
        have kept : ∀ (state : LogTable) position after, EnumSteps table state →
            state.finalizeHealth position = some after → EnumSteps table after :=
          fun state position after work passed => work.trans (steps_finalizeHealth passed)
        exact foldlM_invariant kept first healths
      exact ⟨settled, second, rfl⟩

end Passes

end LogTable

end Loglib
