import Loglib.Basic.Bytes

/-! Export sinks: a staging file that replaces the destination when the export is finished. -/

namespace Loglib

/-- What a rename of the staging file does. -/
inductive RenameOutcome where
  | done
  | crossDevice
  | failed
deriving DecidableEq

/-- What a copy over the destination does; a failed copy may leave anything behind. -/
inductive CopyOutcome where
  | done
  | failed (left : Option Bytes)
deriving DecidableEq

/-- What the file operations of an export do, and when its stop token is seen. -/
structure ExportFaults where
  opens : Bool
  /-- Whether the `n`-th `fwrite` takes all its bytes. -/
  writes : Nat → Bool
  flushes : Bool
  closes : Bool
  rename : RenameOutcome
  copy : CopyOutcome
  /-- Whether the `n`-th removal of the staging file succeeds. -/
  removes : Nat → Bool
  /-- Whether the `n`-th poll sees a stop request. -/
  stops : Nat → Bool

/-- What an exporter does to its sink, in order. -/
inductive ExportCommand where
  | poll
  | write (text : Bytes)
deriving DecidableEq

namespace ExportCommand

/-- The complete export. -/
def output : List ExportCommand → Bytes
  | [] => []
  | .poll :: rest => output rest
  | .write text :: rest => text ++ output rest

/-- The number of polls. -/
def polls : List ExportCommand → Nat
  | [] => 0
  | .poll :: rest => polls rest + 1
  | .write _ :: rest => polls rest

/-- The number of calls of `fwrite`; an empty text makes none. -/
def writes : List ExportCommand → Nat
  | [] => 0
  | .poll :: rest => writes rest
  | .write text :: rest => if text = [] then writes rest else writes rest + 1

end ExportCommand

/-- The sink, with the two files it works on. -/
structure FileSink where
  destination : Option Bytes
  /-- The staging file; its bytes are known once they are flushed. -/
  staging : Option Bytes
  /-- What `fwrite` has taken. -/
  buffer : Bytes
  /-- `mFile` is not null. -/
  isOpen : Bool
  finished : Bool
  writes : Nat
  removals : Nat
  /-- The last removal of the staging file failed. -/
  removalFailed : Bool

namespace FileSink

/-- The constructor, `none` where it throws. -/
def create (faults : ExportFaults) (previous : Option Bytes) : Option FileSink :=
  if faults.opens then some ⟨previous, some [], [], true, false, 0, 0, false⟩ else none

/-- `Write`, with `false` where it throws. -/
def write (faults : ExportFaults) (sink : FileSink) (text : Bytes) : FileSink × Bool :=
  if sink.isOpen = false then (sink, false)
  else if text = [] then (sink, true)
  else if faults.writes sink.writes then
    ({ sink with buffer := sink.buffer ++ text, writes := sink.writes + 1 }, true)
  else ({ sink with writes := sink.writes + 1 }, false)

/-- Remove the staging file. -/
def remove (faults : ExportFaults) (sink : FileSink) : FileSink :=
  { sink with
    staging := if faults.removes sink.removals then none else sink.staging
    removals := sink.removals + 1
    removalFailed := !faults.removes sink.removals }

/-- `Finish`, with `false` where it throws. -/
def finish (faults : ExportFaults) (sink : FileSink) : FileSink × Bool :=
  if sink.finished then (sink, true)
  -- A sink that has failed stays failed.
  else if sink.isOpen = false then (sink, false)
  else if faults.flushes = false then ({ sink with isOpen := false }, false)
  else if faults.closes = false then ({ sink with isOpen := false }, false)
  else
    let closed := { sink with isOpen := false, staging := some sink.buffer }
    match faults.rename with
    | .done =>
      ({ closed with destination := closed.staging, staging := none, finished := true }, true)
    -- Over devices the file is copied, and its copy may be cut short.
    | .crossDevice =>
      match faults.copy with
      | .done =>
        ({ remove faults { closed with destination := closed.staging } with finished := true },
          true)
      | .failed left => (remove faults { closed with destination := left }, false)
    | .failed => (remove faults closed, false)

/-- The destructor. -/
def destroy (faults : ExportFaults) (sink : FileSink) : FileSink :=
  if sink.finished then sink else remove faults { sink with isOpen := false }

/-- Run the commands of an exporter after so many polls, with `false` where one throws. -/
def run (faults : ExportFaults) : Nat → FileSink → List ExportCommand → FileSink × Bool
  | _, sink, [] => (sink, true)
  | polls, sink, .poll :: rest =>
    if faults.stops polls then (sink, false) else run faults (polls + 1) sink rest
  | polls, sink, .write text :: rest =>
    if (sink.write faults text).2 then run faults polls (sink.write faults text).1 rest
    else ((sink.write faults text).1, false)

end FileSink

/-- What is left of an export after the sink is destroyed. -/
structure ExportResult where
  destination : Option Bytes
  staging : Option Bytes
  /-- `Finish` returned normally. -/
  finished : Bool
  removalFailed : Bool
deriving DecidableEq

/-- The sink after the exporter: finish if nothing was thrown, and destroy. -/
def FileSink.conclude (faults : ExportFaults) (ran : FileSink × Bool) : ExportResult :=
  let done := if ran.2 then ran.1.finish faults else ran
  let left := done.1.destroy faults
  ⟨left.destination, left.staging, done.2, left.removalFailed⟩

/-- An export: open the sink, run the exporter, finish, destroy. -/
def exportTo (faults : ExportFaults) (previous : Option Bytes) (commands : List ExportCommand) :
    ExportResult :=
  match FileSink.create faults previous with
  | none => ⟨previous, none, false, false⟩
  | some sink => FileSink.conclude faults (sink.run faults 0 commands)

/-- The destination has the complete export if `Finish` returned normally and its previous content
otherwise, and no staging file is left unless its removal failed. -/
structure AllOrNothing (previous : Option Bytes) (complete : Bytes)
    (result : ExportResult) : Prop where
  destination : result.destination = if result.finished then some complete else previous
  staging : result.staging ≠ none → result.removalFailed = true

/-- No poll sees a stop request, and every write succeeds. -/
def ExportFaults.RunsThrough (faults : ExportFaults) (commands : List ExportCommand) : Prop :=
  (∀ n < ExportCommand.polls commands, faults.stops n = false) ∧
    ∀ n < ExportCommand.writes commands, faults.writes n = true

/-- The staging file is complete and cannot be renamed across devices, and copying it fails after it
has changed the destination. -/
def ExportFaults.SpoilsFinish (faults : ExportFaults) (previous : Option Bytes) : Prop :=
  faults.flushes = true ∧ faults.closes = true ∧ faults.rename = .crossDevice ∧
    ∃ left, faults.copy = .failed left ∧ left ≠ previous

/-- The export comes as far as that copy. -/
def ExportFaults.SpoilsCopy (faults : ExportFaults) (previous : Option Bytes)
    (commands : List ExportCommand) :
    Prop :=
  faults.opens = true ∧ faults.RunsThrough commands ∧ faults.SpoilsFinish previous

section Results

variable (faults : ExportFaults) {previous : Option Bytes} {commands : List ExportCommand}

/-- A sink that is being written to. -/
structure FileSink.Writing (previous : Option Bytes) (sink : FileSink) : Prop where
  destination : sink.destination = previous
  isOpen : sink.isOpen = true
  unfinished : sink.finished = false

/-- A write only adds to the buffer, and says whether it did. -/
theorem FileSink.Writing.write {sink : FileSink} (writing : sink.Writing previous) (text : Bytes) :
    (sink.write faults text).1.Writing previous ∧
      ((sink.write faults text).2 = true →
        (sink.write faults text).1.buffer = sink.buffer ++ text) := by
  unfold FileSink.write
  rw [writing.isOpen, if_neg (by decide)]
  -- An empty text is not handed to the file; another one may fail, which leaves the sink writing.
  split
  · rename_i empty
    exact ⟨writing, fun _ => by simp [empty]⟩
  · split
    · exact ⟨⟨writing.destination, rfl, writing.unfinished⟩, fun _ => rfl⟩
    · exact ⟨⟨writing.destination, rfl, writing.unfinished⟩, fun thrown => by cases thrown⟩

/-- A run of an exporter touches neither the destination nor the staging file's fate, and buffers
the whole export if nothing is thrown. -/
theorem FileSink.Writing.run {sink : FileSink} (writing : sink.Writing previous) (polls : Nat)
    (commands : List ExportCommand) :
    (sink.run faults polls commands).1.Writing previous ∧
      ((sink.run faults polls commands).2 = true →
      (sink.run faults polls commands).1.buffer = sink.buffer ++
        ExportCommand.output commands) := by
  -- The induction is on the commands, and the first that throws ends the run.
  induction commands generalizing sink polls with
  | nil => exact ⟨writing, fun _ => by simp [FileSink.run, ExportCommand.output]⟩
  | cons command rest ih =>
    cases command with
    | poll =>
      rw [FileSink.run]
      split
      · exact ⟨writing, fun thrown => by cases thrown⟩
      · exact ih writing (polls + 1)
    | write text =>
      obtain ⟨kept, appended⟩ := writing.write faults text
      rw [FileSink.run]
      split
      · rename_i taken
        obtain ⟨still, whole⟩ := ih kept polls
        refine ⟨still, fun done => ?_⟩
        rw [whole done, appended taken, ExportCommand.output, List.append_assoc]
      · exact ⟨kept, fun thrown => by cases thrown⟩

/-- A run throws nothing exactly if no poll sees a stop request and every write succeeds. -/
theorem FileSink.Writing.run_eq_true_iff {sink : FileSink} (writing : sink.Writing previous)
    (polls : Nat)
    (commands : List ExportCommand) :
    (sink.run faults polls commands).2 = true ↔
      (∀ n < ExportCommand.polls commands, faults.stops (polls + n) = false) ∧
        ∀ n < ExportCommand.writes commands, faults.writes (sink.writes + n) = true := by
  induction commands generalizing sink polls with
  | nil => simp [FileSink.run, ExportCommand.polls, ExportCommand.writes]
  | cons command rest ih =>
    cases command with
    | poll =>
      rw [FileSink.run, ExportCommand.polls, ExportCommand.writes]
      split
      · rename_i stopped
        constructor
        · exact fun thrown => by cases thrown
        · intro fine
          exact absurd (fine.1 0 (by omega)) (by simp [stopped])
      · rename_i unstopped
        rw [ih writing (polls + 1), Nat.forall_lt_succ_left]
        simp [unstopped, Nat.add_assoc, Nat.add_comm 1]
    | write text =>
      obtain ⟨kept, -⟩ := writing.write faults text
      rw [FileSink.run, ExportCommand.polls, ExportCommand.writes]
      -- An empty text makes no call.
      by_cases empty : text = []
      · have same : sink.write faults text = (sink, true) := by
          simp [FileSink.write, writing.isOpen, empty]
        rw [same, if_pos empty]
        exact ih writing polls
      · rw [if_neg empty, Nat.forall_lt_succ_left]
        by_cases taken : faults.writes sink.writes = true
        · have same : sink.write faults text =
              ({ sink with buffer := sink.buffer ++ text, writes := sink.writes + 1 }, true) := by
            simp [FileSink.write, writing.isOpen, empty, taken]
          rw [same] at kept ⊢
          rw [if_pos rfl, ih kept polls]
          simp [taken, Nat.add_assoc, Nat.add_comm 1]
        · have same : sink.write faults text = ({ sink with writes := sink.writes + 1 },
              false) := by
            simp [FileSink.write, writing.isOpen, empty, taken]
          simp [same, taken]

/-- Removing the staging file leaves it only if that fails. -/
theorem FileSink.staging_remove (sink : FileSink) :
    (sink.remove faults).staging ≠ none → (sink.remove faults).removalFailed = true := by
  unfold FileSink.remove
  cases faults.removes sink.removals <;> simp

/-- Destroying an unfinished sink keeps the destination and removes the staging file. -/
theorem FileSink.destroy_unfinished {sink : FileSink} (unfinished : sink.finished = false) :
    (sink.destroy faults).destination = sink.destination ∧
      ((sink.destroy faults).staging ≠ none → (sink.destroy faults).removalFailed = true) := by
  have same : sink.destroy faults = FileSink.remove faults { sink with isOpen := false } := by
    rw [FileSink.destroy, if_neg (by simp [unfinished])]
  rw [same]
  exact ⟨rfl, FileSink.staging_remove faults _⟩

/-- A finished sink stays as it is. -/
theorem FileSink.destroy_finished {sink : FileSink} (finished : sink.finished = true) :
    sink.destroy faults = sink := if_pos finished

/-- `Finish` returns normally with the whole buffer at the destination, or throws and leaves the
destination alone unless a copy spoils it. -/
theorem FileSink.Writing.finish {sink : FileSink} (writing : sink.Writing previous) :
    ((sink.finish faults).2 = true ∧ (sink.finish faults).1.finished = true ∧
      ¬faults.SpoilsFinish previous ∧
        (sink.finish faults).1.destination = some sink.buffer ∧
        ((sink.finish faults).1.staging ≠ none → (sink.finish faults).1.removalFailed = true)) ∨
      ((sink.finish faults).2 = false ∧ (sink.finish faults).1.finished = false ∧
        ((sink.finish faults).1.destination = previous ↔ ¬faults.SpoilsFinish previous)) := by
  have kept := writing.destination
  unfold FileSink.finish
  rw [if_neg (by simp [writing.unfinished]), if_neg (by simp [writing.isOpen])]
  split
  · -- The flush fails.
    rename_i unflushed
    exact .inr ⟨rfl, writing.unfinished, by simp [kept, ExportFaults.SpoilsFinish, unflushed]⟩
  · split
    · -- The close fails.
      rename_i unclosed
      exact .inr ⟨rfl, writing.unfinished, by simp [kept, ExportFaults.SpoilsFinish, unclosed]⟩
    · rename_i flushed closed
      rw [Bool.not_eq_false] at flushed closed
      cases renamed : faults.rename with
      | done =>
        exact .inl ⟨rfl, rfl, by simp [ExportFaults.SpoilsFinish, renamed], rfl, fun left => absurd rfl left⟩
      | failed =>
        exact .inr ⟨rfl, writing.unfinished,
          by simp [FileSink.remove, kept, ExportFaults.SpoilsFinish, renamed]⟩
      | crossDevice =>
        cases copied : faults.copy with
        | done =>
          exact .inl ⟨rfl, rfl, by simp [ExportFaults.SpoilsFinish, copied], rfl,
            FileSink.staging_remove faults _⟩
        | failed left =>
          refine .inr ⟨rfl, writing.unfinished, ?_⟩
          simp [FileSink.remove, ExportFaults.SpoilsFinish, flushed, closed, renamed, copied]

/-- What an exporter left is concluded all or nothing, unless a copy spoils it. -/
theorem FileSink.Writing.conclude {ran : FileSink × Bool} {complete : Bytes}
    (writing : ran.1.Writing previous)
    (whole : ran.2 = true → ran.1.buffer = complete) :
    AllOrNothing previous complete (FileSink.conclude faults ran) ↔
      ¬(ran.2 = true ∧ faults.SpoilsFinish previous) := by
  cases done : ran.2 with
  | false =>
    -- Something was thrown before `Finish`.
    obtain ⟨kept, removed⟩ := FileSink.destroy_unfinished faults writing.unfinished
    have result : FileSink.conclude faults ran =
        ⟨(ran.1.destroy faults).destination, (ran.1.destroy faults).staging, false,
          (ran.1.destroy faults).removalFailed⟩ := by
      simp [FileSink.conclude, done]
    rw [result]
    exact ⟨fun _ spoils => Bool.false_ne_true spoils.1, fun _ =>
      ⟨kept.trans writing.destination, removed⟩⟩
  | true =>
    have result : FileSink.conclude faults ran =
        ⟨((ran.1.finish faults).1.destroy faults).destination,
          ((ran.1.finish faults).1.destroy faults).staging,
          (ran.1.finish faults).2, ((ran.1.finish faults).1.destroy faults).removalFailed⟩ := by
      simp [FileSink.conclude, done]
    rw [result]
    rcases writing.finish faults with ⟨normal, finished, unspoiled, moved, removed⟩ |
      ⟨thrown, unfinished, kept⟩
    · rw [FileSink.destroy_finished faults finished, normal]
      exact ⟨fun _ spoils => unspoiled spoils.2, fun _ =>
        ⟨moved.trans (congrArg some (whole done)), removed⟩⟩
    · obtain ⟨same, removed⟩ := FileSink.destroy_unfinished faults unfinished
      rw [thrown]
      constructor
      · intro holds spoils
        exact kept.mp (same.symm.trans holds.destination) spoils.2
      · intro unspoiled
        exact ⟨same.trans (kept.mpr fun spoils => unspoiled ⟨rfl, spoils⟩), removed⟩

/-- An export is all or nothing exactly if it does not come to a cross-device copy that fails after
it has changed the destination. -/
theorem exportTo_allOrNothing_iff (faults : ExportFaults) (previous : Option Bytes)
    (commands : List ExportCommand) :
    AllOrNothing previous (ExportCommand.output commands) (exportTo faults previous commands) ↔
      ¬faults.SpoilsCopy previous commands := by
  unfold exportTo
  -- Without a sink nothing is written, and the old file stands.
  cases opened : faults.opens with
  | false =>
    have created : FileSink.create faults previous = none := if_neg (by simp [opened])
    rw [created]
    refine ⟨fun _ spoils => ?_, fun _ => ⟨rfl, fun left => absurd rfl left⟩⟩
    exact absurd (opened.symm.trans spoils.1) (by decide)
  | true =>
    have created : FileSink.create faults previous = some ⟨previous, some [], [], true, false, 0,
        0, false⟩ :=
      if_pos opened
    have writing : (⟨previous, some [], [], true, false, 0, 0, false⟩ : FileSink).Writing
        previous :=
      ⟨rfl, rfl, rfl⟩
    have through := writing.run_eq_true_iff faults 0 commands
    -- The commands write through the sink; how it concludes depends on the faults.
    simp only [Nat.zero_add] at through
    obtain ⟨ended, buffered⟩ := writing.run faults 0 commands
    rw [created]
    refine (ended.conclude faults buffered).trans (not_congr ?_)
    rw [through]
    exact ⟨fun spoils => ⟨opened, spoils.1, spoils.2⟩, fun spoils => spoils.2⟩

end Results

end Loglib
