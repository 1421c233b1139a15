import Loglib.App.OpenQueue
import Loglib.Basic.Runs

/-! Runs of the open queue: every file is accounted for, and a session without a worker is
settled. -/

namespace Loglib

/-- Does the event replace the session? -/
def OpenEvent.Replaces : OpenEvent → Prop
  | .opened _ mode closes _ => mode = .replace ∧ closes = true
  | _ => False

/-- Does the event end a parse that did not succeed? -/
def OpenEvent.Fails : OpenEvent → Prop
  | .streamingFinished result _ => result ≠ .success
  | _ => False

/-- The files that the event queues. -/
def OpenEvent.queues : OpenEvent → List String
  | .opened files mode closes _ => if mode = .replace ∧ closes = false then [] else files
  | _ => []

namespace OpenSession

/-- The errors that have been shown, with their titles. -/
def told (session : OpenSession) : List (String × String) :=
  session.reports.flatMap fun report => report.errors.map (report.title, ·)

/-- The errors that wait to be shown, with their titles. -/
def owed (session : OpenSession) : List (String × String) :=
  session.pendingOpenErrors.map (openErrorTitle, ·) ++
    session.pendingDecompressionErrors.map (decompressionErrorTitle, ·)

/-- The errors of the files that failed. -/
def failed (session : OpenSession) : List (String × String) :=
  session.failures.map fun failure => (failure.title, failure.message)

/-- Every failure has been shown or waits to be shown, once. -/
def Balanced (session : OpenSession) : Prop := (session.told ++ session.owed).Perm session.failed

/-- The queued files are those that left the queue, in order, and behind them the queue. -/
def Accounted (session : OpenSession) : Prop :=
  session.queued = session.departures.map (·.file) ++ session.pendingOpenFiles

/-- No worker is active. -/
structure Unoccupied (session : OpenSession) : Prop where
  workers : session.workers = []
  streaming : session.streamingActive = false
  inFlight : session.decompressionInFlight = false

/-- No worker is active, and nothing waits. -/
structure Settled (session : OpenSession) : Prop extends session.Unoccupied where
  mode : session.mode = .idle
  files : session.pendingOpenFiles = []
  openErrors : session.pendingOpenErrors = []
  decompressionErrors : session.pendingDecompressionErrors = []

/-- The next parse clears no rows. -/
def KeepsRows (session : OpenSession) : Prop :=
  session.mode = .static ∨ session.mode = .idle ∧ session.rows = []

/-- One parse is active. -/
structure Parsing (session : OpenSession) : Prop where
  workers : ∃ file, session.workers = [.parse file]
  streaming : session.streamingActive = true
  inFlight : session.decompressionInFlight = false
  mode : session.mode = .static

/-- One decompression is active. -/
structure Decompressing (session : OpenSession) : Prop where
  workers : session.workers = [.decompress session.decompressionOriginalPath]
  streaming : session.streamingActive = false
  inFlight : session.decompressionInFlight = true
  keeps : session.KeepsRows

/-- What the handlers keep. -/
structure Inv (session : OpenSession) : Prop where
  phase : session.Settled ∨ session.Parsing ∨ session.Decompressing
  accounted : session.Accounted
  balanced : session.Balanced

/-- What a change does to the history: the files it queues, whether it may discard files and whether
it may clear rows. -/
structure Changes (files : List String) (discards clears : Prop)
    (before after : OpenSession) : Prop where
  queued : after.queued = before.queued ++ files
  departures : ∃ left, after.departures = before.departures ++ left ∧
    (¬discards → ∀ departure ∈ left, departure.taken = true)
  rows : ¬clears → before.rows <+: after.rows
  accounted : before.Accounted → after.Accounted
  balanced : before.Balanced → after.Balanced

section Changing

variable {files more : List String} {discards clears : Prop} {first second third : OpenSession}

/-- One change after another. -/
theorem Changes.trans (one : Changes files discards clears first second)
    (two : Changes more discards clears second third) :
    Changes (files ++ more) discards clears first third := by
  -- The departures of both parts, one after the other.
  obtain ⟨left, early, taken⟩ := one.departures
  obtain ⟨right, late, alsoTaken⟩ := two.departures
  refine ⟨?_, ⟨left ++ right, ?_, ?_⟩, ?_, two.accounted ∘ one.accounted,
    two.balanced ∘ one.balanced⟩
  · rw [two.queued, one.queued, List.append_assoc]
  · rw [late, early, List.append_assoc]
  · intro keeps departure member
    rcases List.mem_append.mp member with before | after
    · exact taken keeps departure before
    · exact alsoTaken keeps departure after
  · exact fun keeps => (one.rows keeps).trans (two.rows keeps)

/-- What may be discarded or cleared may be widened. -/
theorem Changes.mono {moreDiscards moreClears : Prop}
    (change : Changes files discards clears first second)
    (discarding : discards → moreDiscards) (clearing : clears → moreClears) :
    Changes files moreDiscards moreClears first second := by
  refine ⟨change.queued, ?_, fun keeps => change.rows (mt clearing keeps), change.accounted,
    change.balanced⟩
  exact change.departures.imp fun _ both => ⟨both.1, fun keeps => both.2 (mt discarding keeps)⟩

/-- A change of the mode, the workers or their flags leaves the history alone. -/
theorem Changes.of_eq (queued : second.queued = first.queued)
    (departures : second.departures = first.departures)
    (waiting : second.pendingOpenFiles = first.pendingOpenFiles) (rows : second.rows = first.rows)
    (told : second.told = first.told) (owed : second.owed = first.owed)
    (failed : second.failed = first.failed) :
    Changes [] discards clears first second := by
  refine ⟨by rw [queued, List.append_nil], ⟨[], by rw [departures, List.append_nil], by simp⟩, ?_, ?_, ?_⟩
  · exact fun _ => rows ▸ List.prefix_rfl
  · -- Both accounts speak of fields that are the same.
    intro accounted
    rw [Accounted, queued, departures, waiting]
    exact accounted
  · intro balanced
    rw [Balanced, told, owed, failed]
    exact balanced

end Changing

section Operations

variable (session : OpenSession) {discards clears : Prop}

/-- Showing the waiting errors tells what is owed. -/
theorem told_showPendingErrors : session.ShowPendingErrors.told = session.told ++ session.owed := by
  -- A bucket without errors makes no report, and its report would say nothing.
  have one : ∀ (session : OpenSession) (title : String) (errors : List String),
      (session.ShowParseErrors title errors).told = session.told ++ errors.map (title, ·) := by
    intro session title errors
    rw [ShowParseErrors]
    split
    · rename_i empty
      rw [empty, List.map_nil, List.append_nil]
    · simp [told]
  have shown : session.ShowPendingErrors.told = ((session.ShowParseErrors openErrorTitle
      session.pendingOpenErrors).ShowParseErrors decompressionErrorTitle
        session.pendingDecompressionErrors).told := rfl
  rw [shown, one, one, owed, List.append_assoc]

/-- What showing the waiting errors leaves alone. -/
theorem showPendingErrors_frame :
    session.ShowPendingErrors = { session with
      reports := session.ShowPendingErrors.reports
      pendingOpenErrors := []
      pendingDecompressionErrors := [] } := by
  simp only [ShowPendingErrors, ShowParseErrors]
  split <;> split <;> rfl

/-- Showing the waiting errors changes no history but the reports. -/
theorem changes_showPendingErrors :
    Changes [] discards clears session session.ShowPendingErrors := by
  -- Showing the errors moves them into reports and changes nothing else.
  have frame := session.showPendingErrors_frame
  have queued : session.ShowPendingErrors.queued = session.queued := by rw [frame]
  have departures : session.ShowPendingErrors.departures = session.departures := by rw [frame]
  have waiting : session.ShowPendingErrors.pendingOpenFiles = session.pendingOpenFiles := by
    rw [frame]
  have rows : session.ShowPendingErrors.rows = session.rows := by rw [frame]
  have failed : session.ShowPendingErrors.failed = session.failed := by
    rw [OpenSession.failed, frame]; rfl
  refine ⟨by rw [queued, List.append_nil], ⟨[], by rw [departures, List.append_nil], by simp⟩, ?_, ?_, ?_⟩
  · exact fun _ => rows ▸ List.prefix_rfl
  · intro accounted
    rw [Accounted, queued, departures, waiting]
    exact accounted
  · -- What is owed has been told, so it is owed no more.
    intro balanced
    have nothing : session.ShowPendingErrors.owed = [] := rfl
    rw [Balanced, told_showPendingErrors, nothing, List.append_nil, failed]
    exact balanced

/-- The first file is taken. -/
theorem changes_takeFirst {file : String} {rest : List String}
    (queue : session.pendingOpenFiles = file :: rest) :
    Changes [] discards clears session (session.TakeFirst file rest) := by
  refine ⟨(List.append_nil _).symm, ⟨[⟨file, true⟩], rfl, ?_⟩, fun _ => List.prefix_rfl, ?_, id⟩
  · intro _ departure member
    rw [List.mem_singleton.mp member]
  · intro accounted
    rw [Accounted, queue] at accounted
    simp [Accounted, TakeFirst, accounted]

/-- A file that did not open is owed. -/
theorem changes_pushOpenError (file message : String) :
    Changes [] discards clears session (session.PushOpenError file message) := by
  refine ⟨(List.append_nil _).symm, ⟨[], (List.append_nil _).symm, by simp⟩, fun _ =>
    List.prefix_rfl, id, ?_⟩
  intro balanced
  -- The new error stands behind the open errors, and so in front of the decompression errors.
  have grown := balanced.append_right [(openErrorTitle, message)]
  simp only [Balanced, told, owed, failed, PushOpenError, List.map_append, List.map_singleton,
    List.append_assoc] at grown ⊢
  refine List.Perm.trans ?_ grown
  refine List.Perm.append_left _ (List.Perm.append_left _ ?_)
  exact List.perm_append_comm

/-- A file that did not decompress is owed. -/
theorem changes_pushDecompressionError (file message : String) :
    Changes [] discards clears session (session.PushDecompressionError file message) := by
  refine ⟨(List.append_nil _).symm, ⟨[], (List.append_nil _).symm, by simp⟩, fun _ =>
    List.prefix_rfl, id, ?_⟩
  -- One more error is told and owed alike.
  intro balanced
  have grown := balanced.append_right [(decompressionErrorTitle, message)]
  simp only [Balanced, told, owed, failed, PushDecompressionError, List.map_append,
    List.map_singleton,
    List.append_assoc] at grown ⊢
  exact grown

/-- Clearing the queue discards what is in it. -/
theorem changes_clearPendingOpenFiles (may : session.pendingOpenFiles ≠ [] → discards) :
    Changes [] discards clears session session.ClearPendingOpenFiles := by
  refine ⟨(List.append_nil _).symm, ⟨_, rfl, ?_⟩, fun _ => List.prefix_rfl, ?_, id⟩
  · -- What was waiting departs, and only the events that may discard it do so.
    intro keeps departure member
    have empty : session.pendingOpenFiles = [] := not_not.mp (mt may keeps)
    rw [empty] at member
    cases member
  · intro accounted
    rw [Accounted] at accounted
    simp [Accounted, ClearPendingOpenFiles, accounted, Function.comp_def]

/-- Files are queued behind the others. -/
theorem changes_queueFiles (files : List String) :
    Changes files discards clears session (session.QueueFiles files) := by
  refine ⟨rfl, ⟨[], (List.append_nil _).symm, by simp⟩, fun _ => List.prefix_rfl, ?_, id⟩
  intro accounted
  rw [Accounted] at accounted
  simp [Accounted, QueueFiles, accounted]

end Operations

section Handlers

variable {session : OpenSession} {discards clears : Prop} {disk : String → OpenProbe}

/-- A parse that is armed without a worker is the only one, and clears no rows. -/
theorem Unoccupied.parses (free : session.Unoccupied) (keeps : session.KeepsRows) (file : String)
    (anchored : Bool) :
    (session.ContinueOpenAfterPrepared file none anchored).1 = true ∧
      (session.ContinueOpenAfterPrepared file none anchored).2.Parsing ∧
      Changes [] discards clears session
        (session.ContinueOpenAfterPrepared file none anchored).2 := by
  have alone : session.workers ++ [OpenWorker.parse file] = [.parse file] := by
    rw [free.workers, List.nil_append]
  rw [ContinueOpenAfterPrepared]
  rcases keeps with active | ⟨inactive, empty⟩
  · rw [if_pos (by simp [IsSessionActive, active])]
    exact ⟨rfl, ⟨⟨file, alone⟩, rfl, free.inFlight, active⟩, .of_eq rfl rfl rfl rfl rfl rfl rfl⟩
  · -- The parse that clears the rows only starts on an empty session.
    rw [if_neg (by simp [IsSessionActive, inactive])]
    exact ⟨rfl, ⟨⟨file, alone⟩, rfl, free.inFlight, rfl⟩, .of_eq rfl rfl rfl empty.symm rfl rfl rfl⟩

/-- A decompression that starts without a worker is the only one. -/
theorem Unoccupied.decompresses (free : session.Unoccupied) (keeps : session.KeepsRows)
    (file : String) :
    (session.BeginAsyncDecompression file).Decompressing ∧
      Changes [] discards clears session (session.BeginAsyncDecompression file) := by
  have alone : session.workers ++ [OpenWorker.decompress file] = [.decompress file] := by
    rw [free.workers, List.nil_append]
  exact ⟨⟨alone, free.streaming, rfl, keeps⟩, .of_eq rfl rfl rfl rfl rfl rfl rfl⟩

/-- The queue ran out without a worker: none of the files opened, and an idle session has
shown its errors. -/
structure Drained (disk : String → OpenProbe) (files : List String) (mode : SessionMode)
    (session : OpenSession) : Prop
    extends session.Unoccupied where
  queue : session.pendingOpenFiles = []
  kept : session.mode = mode
  shown : mode = .idle → session.pendingOpenErrors = [] ∧ session.pendingDecompressionErrors = []
  unopenable : ∀ file ∈ files, ∃ what, disk file = .unopenable what

/-- The loop takes files until one has a worker, or none is left. -/
theorem Unoccupied.streams (free : session.Unoccupied) (keeps : session.KeepsRows)
    {files : List String}
    (queue : session.pendingOpenFiles = files) :
    Changes [] discards clears session (StreamPendingFiles disk files session) ∧
      ((StreamPendingFiles disk files session).Parsing ∨
        (StreamPendingFiles disk files session).Decompressing ∨
        Drained disk files session.mode (StreamPendingFiles disk files session)) := by
  induction files generalizing session with
  | nil =>
    rw [StreamPendingFiles]
    split
    · rename_i active
      refine ⟨.of_eq rfl rfl rfl rfl rfl rfl rfl, .inr (.inr ⟨free, queue, rfl, ?_, by simp⟩)⟩
      intro idle
      simp [IsSessionActive, idle] at active
    · have frame := session.showPendingErrors_frame
      refine ⟨session.changes_showPendingErrors,
        .inr (.inr ⟨⟨?_, ?_, ?_⟩, ?_, ?_, fun _ => ⟨rfl, rfl⟩, by simp⟩)⟩
      · rw [frame]; exact free.workers
      · rw [frame]; exact free.streaming
      · rw [frame]; exact free.inFlight
      · rw [frame]; exact queue
      · rw [frame]
  | cons file rest ih =>
    have took : Changes [] discards clears session (session.TakeFirst file rest) :=
      session.changes_takeFirst queue
    have stillFree : (session.TakeFirst file rest).Unoccupied :=
      ⟨free.workers, free.streaming, free.inFlight⟩
    simp only [StreamPendingFiles]
    cases met : disk file with
    | compressed =>
      obtain ⟨begun, changes⟩ := stillFree.decompresses keeps file
      exact ⟨took.trans changes, .inr (.inl begun)⟩
    | plain =>
      obtain ⟨-, begun, changes⟩ := stillFree.parses keeps file false
      exact ⟨took.trans changes, .inl begun⟩
    | unopenable what =>
      -- The error is kept, and the loop goes on with the rest.
      have pushed : Changes [] discards clears (session.TakeFirst file rest)
          ((session.TakeFirst file rest).PushOpenError file (openErrorText file what)) :=
        changes_pushOpenError _ file _
      have goesOn : ((session.TakeFirst file rest).PushOpenError file
          (openErrorText file what)).Unoccupied :=
        ⟨free.workers, free.streaming, free.inFlight⟩
      obtain ⟨changes, outcome⟩ := ih goesOn keeps rfl
      refine ⟨(took.trans pushed).trans changes, outcome.imp_right (Or.imp_right fun drained => ?_)⟩
      refine ⟨drained.toUnoccupied, drained.queue, drained.kept, drained.shown,
        fun other member => ?_⟩
      rcases List.mem_cons.mp member with rfl | later
      · exact ⟨what, met⟩
      · exact drained.unopenable other later

/-- Cancelling a decompression without errors forgets nothing. -/
theorem changes_cancelInFlightDecompression (session : OpenSession)
    (none_ : session.pendingDecompressionErrors = []) :
    Changes [] discards clears session session.CancelInFlightDecompression := by
  refine .of_eq rfl rfl rfl rfl rfl ?_ rfl
  rw [owed, owed, none_]
  rfl

/-- The teardown: the mode is idle, the errors are shown, and a failed parse takes a
decompression with it. -/
theorem Unoccupied.tearsDown (free : session.Unoccupied) (empty : session.pendingOpenFiles = [])
    (failed : Prop)
    [Decidable failed] :
    let ended := ({ session with mode := .idle } : OpenSession).ShowPendingErrors
    (if failed then ended.CancelInFlightDecompression else ended).Settled ∧
      Changes [] discards clears session (if failed then ended.CancelInFlightDecompression
        else ended) := by
  intro ended
  -- The mode is idle, no file waits, and the errors have been shown.
  have settled : ended.Settled := by
    have frame : ended = _ := showPendingErrors_frame { session with mode := .idle }
    rw [frame]
    exact ⟨⟨free.workers, free.streaming, free.inFlight⟩, rfl, empty, rfl, rfl⟩
  have idle : Changes [] discards clears session { session with mode := .idle } :=
    .of_eq rfl rfl rfl rfl rfl rfl rfl
  have changes : Changes [] discards clears session ended :=
    idle.trans (changes_showPendingErrors _)
  -- A failed opening also gives up what is being decompressed, and then nothing is.
  split
  · refine ⟨⟨⟨?_, settled.streaming, rfl⟩, settled.mode, settled.files, settled.openErrors, rfl⟩,
      ?_⟩
    · rw [CancelInFlightDecompression, settled.workers]
      rfl
    · exact changes.trans (ended.changes_cancelInFlightDecompression settled.decompressionErrors)
  · exact ⟨settled, changes⟩

/-- The end of a parse: the queue goes on, or the session settles. -/
theorem Unoccupied.streamingFinished (free : session.Unoccupied) (active : session.mode = .static)
    (result : StreamingResult) (fails : result ≠ .success → discards) :
    Changes [] discards clears session (session.OnStreamingFinished result disk) ∧
      ((session.OnStreamingFinished result disk).Settled ∨
        (session.OnStreamingFinished result disk).Parsing ∨
        (session.OnStreamingFinished result disk).Decompressing) := by
  rw [OnStreamingFinished]
  by_cases advances : result = .success ∧ session.pendingOpenFiles ≠ []
  · -- The queue advances, and the session is torn down only if no worker was armed.
    have went : Changes [] discards clears session (session.StreamNextPendingFile disk) ∧
        ((session.StreamNextPendingFile disk).Parsing ∨
          (session.StreamNextPendingFile disk).Decompressing ∨
          Drained disk session.pendingOpenFiles session.mode
            (session.StreamNextPendingFile disk)) :=
      free.streams (.inl active) rfl
    obtain ⟨changes, outcome⟩ := went
    simp only [advances, ne_eq, not_false_eq_true, and_self, decide_true, if_true, true_and]
    rcases outcome with parsing | decompressing | drained
    · rw [if_pos (.inl parsing.streaming)]
      exact ⟨changes, .inr (.inl parsing)⟩
    · rw [if_pos (.inr decompressing.inFlight)]
      exact ⟨changes, .inr (.inr decompressing)⟩
    · rw [if_neg (by simp [drained.streaming, drained.inFlight])]
      obtain ⟨settled, torn⟩ := @tearsDown _ discards clears drained.toUnoccupied drained.queue
        (StreamingResult.success = .failed) _
      exact ⟨changes.trans torn, .inl settled⟩
  · -- What is left of the queue is discarded, which only a parse that did not succeed can meet.
    have cleared : Changes [] discards clears session session.ClearPendingOpenFiles := by
      refine session.changes_clearPendingOpenFiles fun left => fails fun success =>
        advances ⟨success, left⟩
    have free : session.ClearPendingOpenFiles.Unoccupied :=
      ⟨free.workers, free.streaming, free.inFlight⟩
    obtain ⟨settled, torn⟩ := @tearsDown _ discards clears free rfl (result = .failed) _
    simp only [advances, decide_false, if_false, false_and, Bool.false_eq_true]
    exact ⟨cleared.trans torn, .inl settled⟩

/-- After a decompression that armed no parse, the queue goes on, or the session settles. -/
theorem Unoccupied.continues (free : session.Unoccupied) (keeps : session.KeepsRows) :
    Changes [] discards clears session (session.ContinueAfterDecompression disk) ∧
      ((session.ContinueAfterDecompression disk).Settled ∨
        (session.ContinueAfterDecompression disk).Parsing ∨
        (session.ContinueAfterDecompression disk).Decompressing) := by
  have scratch : Changes [] discards clears session
      { session with decompressionOriginalPath := "" } :=
    .of_eq rfl rfl rfl rfl rfl rfl rfl
  have free : ({ session with decompressionOriginalPath := "" } : OpenSession).Unoccupied :=
    ⟨free.workers, free.streaming, free.inFlight⟩
  rw [ContinueAfterDecompression, StreamNextPendingFile]
  obtain ⟨changes, outcome⟩ := @streams _ discards clears disk free keeps _ rfl
  -- A worker that was armed leaves the rest to its own end.
  have goesOn : ∀ {next : OpenSession}, next.streamingActive ∨ next.decompressionInFlight →
      next.FinalizeAfterDecompressionIfChainTerminal = next := by
    intro next armed
    rw [FinalizeAfterDecompressionIfChainTerminal, if_pos armed]
  rcases outcome with parsing | decompressing | drained
  · rw [goesOn (.inl parsing.streaming)]
    exact ⟨scratch.trans changes, .inr (.inl parsing)⟩
  · rw [goesOn (.inr decompressing.inFlight)]
    exact ⟨scratch.trans changes, .inr (.inr decompressing)⟩
  · revert drained changes
    generalize StreamPendingFiles disk _ _ = next
    intro changes drained
    obtain ⟨settled, -⟩ := @tearsDown _ discards clears drained.toUnoccupied drained.queue False _
    rw [if_neg id] at settled
    have shown : Changes [] discards clears next next.ShowPendingErrors :=
      changes_showPendingErrors _
    have frame := next.showPendingErrors_frame
    have finalized : next.FinalizeAfterDecompressionIfChainTerminal =
        { next.ShowPendingErrors with mode := .idle } := by
      rw [FinalizeAfterDecompressionIfChainTerminal,
        if_neg (by simp [drained.streaming, drained.inFlight])]
      by_cases active : next.ShowPendingErrors.IsSessionActive = true
      · exact if_pos active
      · have idle : next.ShowPendingErrors.mode = .idle := by simpa [IsSessionActive] using active
        simp only [if_neg active]
        rw [← idle]
    have idle : Changes [] discards clears next.ShowPendingErrors
        { next.ShowPendingErrors with mode := .idle } :=
      .of_eq rfl rfl rfl rfl rfl rfl rfl
    rw [finalized]
    refine ⟨(scratch.trans changes).trans (shown.trans idle),
      .inl ⟨⟨?_, ?_, ?_⟩, rfl, ?_, rfl, rfl⟩⟩
    · rw [frame]; exact drained.workers
    · rw [frame]; exact drained.streaming
    · rw [frame]; exact drained.inFlight
    · rw [frame]; exact drained.queue

/-- The end of a decompression: its file is parsed, or its error is kept and the queue goes on. -/
theorem Decompressing.finishes (decompressing : session.Decompressing)
    (result : DecompressionResult) :
    Changes [] discards clears session (session.OnDecompressionFinished result disk) ∧
      ((session.OnDecompressionFinished result disk).Settled ∨
        (session.OnDecompressionFinished result disk).Parsing ∨
        (session.OnDecompressionFinished result disk).Decompressing) := by
  rw [OnDecompressionFinished, if_pos decompressing.inFlight]
  generalize session.decompressionOriginalPath = path
  have began : Changes [] discards clears session session.EndDecompression :=
    .of_eq rfl rfl rfl rfl rfl rfl rfl
  have free : session.EndDecompression.Unoccupied := by
    refine ⟨?_, decompressing.streaming, rfl⟩
    rw [EndDecompression, decompressing.workers]
    rfl
  have keeps : session.EndDecompression.KeepsRows := decompressing.keeps
  revert began free keeps
  generalize session.EndDecompression = ended
  intro began free keeps
  -- An error is kept, and then the queue goes on.
  have fails : ∀ message, Changes [] discards clears session
        ((ended.PushDecompressionError path message).ContinueAfterDecompression disk) ∧
      (((ended.PushDecompressionError path message).ContinueAfterDecompression disk).Settled ∨
        ((ended.PushDecompressionError path message).ContinueAfterDecompression disk).Parsing ∨
        ((ended.PushDecompressionError path message).ContinueAfterDecompression
          disk).Decompressing) := by
    intro message
    have pushed : Changes [] discards clears ended (ended.PushDecompressionError path message) :=
      changes_pushDecompressionError ..
    have stillFree : (ended.PushDecompressionError path message).Unoccupied :=
      ⟨free.workers, free.streaming, free.inFlight⟩
    obtain ⟨changes, outcome⟩ := @Unoccupied.continues _ discards clears disk stillFree keeps
    exact ⟨(began.trans pushed).trans changes, outcome⟩
  cases result with
  | cancelled =>
    obtain ⟨changes, outcome⟩ := @Unoccupied.continues _ discards clears disk free keeps
    exact ⟨began.trans changes, outcome⟩
  | failed error => exact fails _
  | success openError =>
    cases openError with
    | some what => exact fails _
    | none =>
      obtain ⟨armed, parsing, changes⟩ := @Unoccupied.parses _ discards clears free keeps path true
      simp only [armed, if_true]
      have scratch : Changes [] discards clears (ended.ContinueOpenAfterPrepared path none true).2
          { (ended.ContinueOpenAfterPrepared path none true).2 with
            decompressionOriginalPath := "" } :=
        .of_eq rfl rfl rfl rfl rfl rfl rfl
      exact ⟨(began.trans changes).trans scratch,
        .inr (.inl ⟨parsing.workers, parsing.streaming, parsing.inFlight, parsing.mode⟩)⟩

/-- Files are queued on a session without a worker and without errors, and the first one
is opened. -/
theorem Unoccupied.opens (free : session.Unoccupied) (keeps : session.KeepsRows)
    (openErrors : session.pendingOpenErrors = [])
    (decompressionErrors : session.pendingDecompressionErrors = [])
    (may : session.pendingOpenFiles ≠ [] → discards) (files : List String) :
    Changes files discards clears session (session.ArmQueue files disk) ∧
      ((session.ArmQueue files disk).Parsing ∨ (session.ArmQueue files disk).Decompressing ∨
        Drained disk files session.mode (session.ArmQueue files disk)) := by
  have cleared : Changes [] discards clears session session.ClearPendingOpenFiles :=
    session.changes_clearPendingOpenFiles may
  have queued : Changes files discards clears session.ClearPendingOpenFiles
      (session.SetPendingOpenFiles files) :=
    changes_queueFiles _ files
  -- The buckets are empty already, so that clearing them forgets nothing.
  have same : { session.SetPendingOpenFiles files with
    pendingOpenErrors := []
    pendingDecompressionErrors := [] } =
      session.SetPendingOpenFiles files := by
    simp only [SetPendingOpenFiles, QueueFiles, ClearPendingOpenFiles, openErrors,
      decompressionErrors]
  have free : (session.SetPendingOpenFiles files).Unoccupied :=
    ⟨free.workers, free.streaming, free.inFlight⟩
  rw [ArmQueue, same, StreamNextPendingFile]
  obtain ⟨changes, outcome⟩ := @Unoccupied.streams _ discards clears disk free keeps _ rfl
  have whole := (cleared.trans queued).trans changes
  rw [List.nil_append, List.append_nil] at whole
  exact ⟨whole, outcome⟩

/-- While a parse is active, the session parses. -/
theorem Inv.parsing (inv : session.Inv) (active : session.streamingActive = true) :
    session.Parsing := by
  rcases inv.phase with settled | parsing | decompressing
  · exact absurd (settled.streaming.symm.trans active) (by decide)
  · exact parsing
  · exact absurd (decompressing.streaming.symm.trans active) (by decide)

/-- While a decompression is active, the session decompresses. -/
theorem Inv.decompressing (inv : session.Inv) (inFlight : session.decompressionInFlight = true) :
    session.Decompressing := by
  rcases inv.phase with settled | parsing | decompressing
  · exact absurd (settled.inFlight.symm.trans inFlight) (by decide)
  · exact absurd (parsing.inFlight.symm.trans inFlight) (by decide)
  · exact decompressing

/-- While nothing is active, the session is settled. -/
theorem Inv.settled (inv : session.Inv) (noParse : ¬session.streamingActive = true)
    (noDecompression : ¬session.decompressionInFlight = true) : session.Settled := by
  rcases inv.phase with settled | parsing | decompressing
  · exact settled
  · exact absurd parsing.streaming noParse
  · exact absurd decompressing.inFlight noDecompression

/-- What a replaced session is before its files are queued: no worker, no rows and no errors, and no
error was lost. -/
theorem Inv.resets (inv : session.Inv)
    (decompressionErrors : session.pendingDecompressionErrors = [])
    (openErrors : session.streamingActive = true ∨ session.pendingOpenErrors = []) :
    let ready : OpenSession :=
  { session.CancelInFlightDecompression.ResetModel disk with mode := .idle }
    Changes [] True True session ready ∧ ready.Unoccupied ∧ ready.rows = [] ∧
      ready.pendingOpenErrors = [] ∧
      ready.pendingDecompressionErrors = [] := by
  intro ready
  have cancelled : Changes [] True True session session.CancelInFlightDecompression :=
    session.changes_cancelInFlightDecompression decompressionErrors
  -- The rows go, which a replacement may do.
  have wiped : ∀ before : OpenSession,
      Changes [] True True before { before.EndStreaming with rows := [] } := by
    intro before
    exact ⟨(List.append_nil _).symm, ⟨[], (List.append_nil _).symm, by simp⟩, fun keeps =>
      absurd trivial keeps, id, id⟩
  have idle : ∀ before : OpenSession, Changes [] True True before { before with mode := .idle } :=
    fun before => .of_eq rfl rfl rfl rfl rfl rfl rfl
  have reset := cancelled.trans (wiped _)
  by_cases active : session.streamingActive = true
  · -- The parse that was active is cancelled, which shows what waits.
    obtain ⟨file, alone⟩ := (inv.parsing active).workers
    have free : ({ session.CancelInFlightDecompression.EndStreaming with rows := [] } :
        OpenSession).Unoccupied := by
      refine ⟨?_, rfl, rfl⟩
      rw [CancelInFlightDecompression, EndStreaming, alone]
      rfl
    have stopped : ready = { OnStreamingFinished { session.CancelInFlightDecompression.EndStreaming with
      rows := [] }
        .cancelled disk with mode := .idle } := by
      simp only [ready, ResetModel]
      rw [if_pos (show session.CancelInFlightDecompression.streamingActive = true from active)]
    revert free reset
    have noRows : ({ session.CancelInFlightDecompression.EndStreaming with rows := [] } :
        OpenSession).rows = [] := rfl
    revert noRows
    rw [stopped]
    generalize ({ session.CancelInFlightDecompression.EndStreaming with rows := [] } :
      OpenSession) = wiped
    intro noRows reset free
    have ended : wiped.OnStreamingFinished .cancelled disk =
        ({ wiped.ClearPendingOpenFiles with mode := .idle } : OpenSession).ShowPendingErrors := rfl
    have frame := showPendingErrors_frame { wiped.ClearPendingOpenFiles with mode := .idle }
    have cleared : Changes [] True True wiped wiped.ClearPendingOpenFiles :=
      wiped.changes_clearPendingOpenFiles fun _ => trivial
    have shown : Changes [] True True _ _ :=
      (idle wiped.ClearPendingOpenFiles).trans (changes_showPendingErrors _)
    rw [ended]
    refine ⟨(reset.trans (cleared.trans shown)).trans (idle _), ⟨?_, ?_, ?_⟩, ?_, rfl, rfl⟩
    · rw [frame]; exact free.workers
    · rw [frame]; exact free.streaming
    · rw [frame]; exact free.inFlight
    · rw [frame]; exact noRows
  · -- Without a parse nothing is shown, and nothing waits.
    have empty : session.pendingOpenErrors = [] := openErrors.resolve_left active
    have none_ : session.workers.eraseP (!·.isParse) = [] := by
      rcases inv.phase with settled | parsing | decompressing
      · rw [settled.workers]
        rfl
      · exact absurd parsing.streaming active
      · rw [decompressing.workers]
        rfl
    have stopped : ready = { session.CancelInFlightDecompression.EndStreaming with
      rows := []
      mode := .idle } := by
      simp only [ready, ResetModel]
      rw [if_neg (show ¬session.CancelInFlightDecompression.streamingActive = true from active)]
    rw [stopped]
    refine ⟨reset.trans (idle _), ⟨?_, rfl, rfl⟩, rfl, empty, rfl⟩
    rw [CancelInFlightDecompression, EndStreaming, none_]
    rfl

end Handlers

/-- A finished session has rows and nothing under way. -/
def Finished (session : OpenSession) : Prop :=
  session.mode = .idle ∧ session.rows ≠ [] ∧ session.streamingActive = false ∧
    session.decompressionInFlight = false

/-- The condition on an event: what is appended to a finished session has a file that is not refused
at once, and no error waits when the session is replaced, but for the open errors that the end of
the parse still shows. -/
def Meets (session : OpenSession) : OpenEvent → Prop
  | .opened files .append _ disk =>
    session.Finished → ∃ file ∈ files, ∀ what, disk file ≠ .unopenable what
  | .opened _ .replace closes _ => closes = true →
      session.pendingDecompressionErrors = [] ∧
        (session.streamingActive = true ∨ session.pendingOpenErrors = [])
  | _ => True

/-- What an event does to a static session: one worker at most; the files leave the queue in order,
each once, and only a replacement or a parse that fails discards some; only a replacement clears
rows; and a session that is left without a worker is idle, with an empty queue and every failure
shown once under its title. -/
structure Accounts (session : OpenSession) (event : OpenEvent) (after : OpenSession) : Prop where
  workers : after.workers.length ≤ 1
  parses : after.streamingActive = true ↔ ∃ file, .parse file ∈ after.workers
  decompresses : after.decompressionInFlight = true ↔ ∃ file, .decompress file ∈ after.workers
  queued : after.queued = session.queued ++ event.queues
  accounted : after.queued = after.departures.map (·.file) ++ after.pendingOpenFiles
  departures : ∃ left, after.departures = session.departures ++ left ∧
    (¬(event.Replaces ∨ event.Fails) → ∀ departure ∈ left, departure.taken = true)
  rows : ¬event.Replaces → session.rows <+: after.rows
  settled : after.workers = [] → after.pendingOpenFiles = [] ∧ after.mode = .idle ∧
    after.told.Perm after.failed

/-- Every outcome of an event behaves. -/
def Behaves (session : OpenSession) (event : OpenEvent) : Prop :=
  ∀ after, session.step event = some after → session.Accounts event after

section Steps

variable {session after : OpenSession}

/-- What an event does to the history, and the phase it leads to. -/
def Leads (session : OpenSession) (event : OpenEvent) (after : OpenSession) : Prop :=
  Changes event.queues (event.Replaces ∨ event.Fails) event.Replaces session after ∧
    (after.Settled ∨ after.Parsing ∨ after.Decompressing)

/-- No handler makes a static session a live tail. -/
theorem Inv.static (inv : session.Inv) : session.mode ≠ .liveTail := by
  rcases inv.phase with settled | parsing | decompressing
  · rw [settled.mode]; decide
  · rw [parsing.mode]; decide
  · rcases decompressing.keeps with active | ⟨inactive, -⟩
    · rw [active]; decide
    · rw [inactive]; decide

/-- Files that replace what is open. -/
theorem Inv.replaces (inv : session.Inv) {files : List String} {closes : Bool}
    {disk : String → OpenProbe}
    (meets : session.Meets (.opened files .replace closes disk)) :
    session.Leads (.opened files .replace closes disk)
      (session.StartStreamingOpenQueue files .replace closes disk) := by
  cases closes with
  | false => exact ⟨.of_eq rfl rfl rfl rfl rfl rfl rfl, inv.phase⟩
  | true =>
    obtain ⟨none_, noOpen⟩ := meets rfl
    obtain ⟨reset, free, empty, openErrors, decompressionErrors⟩ :=
      @Inv.resets _ disk inv none_ noOpen
    obtain ⟨changes, outcome⟩ :=
      @Unoccupied.opens _ True True disk free (.inr ⟨rfl, empty⟩) openErrors
      decompressionErrors (fun _ => trivial) files
    rw [StartStreamingOpenQueue, if_pos (by simp [Destructive]), if_pos rfl]
    refine ⟨(reset.trans changes).mono (fun _ => .inl ⟨rfl, rfl⟩) (fun _ => ⟨rfl, rfl⟩), ?_⟩
    rcases outcome with parsing | decompressing | drained
    · exact .inr (.inl parsing)
    · exact .inr (.inr decompressing)
    · -- The session is idle, so that its errors have been shown.
      obtain ⟨noOpen, none_⟩ := drained.shown rfl
      exact .inl ⟨drained.toUnoccupied, drained.kept, drained.queue, noOpen, none_⟩

/-- Files that are appended to what is open. -/
theorem Inv.appends (inv : session.Inv) {files : List String} {closes : Bool}
    {disk : String → OpenProbe}
    (meets : session.Meets (.opened files .append closes disk)) :
    session.Leads (.opened files .append closes disk)
      (session.StartStreamingOpenQueue files .append closes disk) := by
  have soft : session.Destructive .append = false := by simp [Destructive, inv.static]
  rw [StartStreamingOpenQueue, if_neg (by simp [soft])]
  by_cases busy : session.streamingActive = true ∨ session.decompressionInFlight = true
  · -- The worker that is active takes care of the files at its end.
    rw [if_pos busy]
    refine ⟨session.changes_queueFiles files, ?_⟩
    rcases inv.phase with settled | parsing | decompressing
    · simp [settled.streaming, settled.inFlight] at busy
    · exact .inr (.inl ⟨parsing.workers, parsing.streaming, parsing.inFlight, parsing.mode⟩)
    · exact .inr (.inr ⟨decompressing.workers, decompressing.streaming, decompressing.inFlight,
        decompressing.keeps⟩)
  · rw [if_neg busy]
    obtain ⟨noParse, noDecompression⟩ := not_or.mp busy
    have settled := inv.settled noParse noDecompression
    have none_ : ∀ {discards : Prop}, session.pendingOpenFiles ≠ [] → discards :=
      fun left => absurd settled.files left
    by_cases finished : session.mode = .idle ∧ session.rows ≠ []
    · -- The rows stay: the session is static again, and some file gets a worker.
      rw [if_pos finished]
      obtain ⟨file, member, opens⟩ :=
        meets ⟨finished.1, finished.2, settled.streaming, settled.inFlight⟩
      have active : Changes [] (OpenEvent.Replaces (.opened files .append closes disk) ∨
          OpenEvent.Fails (.opened files .append closes disk))
          (OpenEvent.Replaces (.opened files .append closes disk)) session
            { session with mode := .static } :=
        .of_eq rfl rfl rfl rfl rfl rfl rfl
      have free : ({ session with mode := .static } : OpenSession).Unoccupied :=
        ⟨settled.workers, settled.streaming, settled.inFlight⟩
      obtain ⟨changes, outcome⟩ := @Unoccupied.opens _ _ _ disk free (.inl rfl) settled.openErrors
        settled.decompressionErrors none_ files
      refine ⟨active.trans changes, ?_⟩
      rcases outcome with parsing | decompressing | drained
      · exact .inr (.inl parsing)
      · exact .inr (.inr decompressing)
      · obtain ⟨what, refused⟩ := drained.unopenable file member
        exact absurd refused (opens what)
    · rw [if_neg finished]
      have empty : session.rows = [] := by
        by_contra some_
        exact finished ⟨settled.mode, some_⟩
      obtain ⟨changes, outcome⟩ :=
        @Unoccupied.opens _ _ _ disk settled.toUnoccupied (.inr ⟨settled.mode, empty⟩)
        settled.openErrors settled.decompressionErrors none_ files
      refine ⟨changes, ?_⟩
      rcases outcome with parsing | decompressing | drained
      · exact .inr (.inl parsing)
      · exact .inr (.inr decompressing)
      · obtain ⟨noOpen, noDecompression⟩ := drained.shown settled.mode
        exact .inl ⟨drained.toUnoccupied, drained.kept.trans settled.mode, drained.queue, noOpen,
          noDecompression⟩

/-- One event that meets the condition. -/
theorem Inv.step (inv : session.Inv) {event : OpenEvent} (meets : session.Meets event)
    (done : session.step event = some after) : session.Leads event after := by
  cases event with
  | opened files mode closes disk =>
    obtain rfl := Option.some.inj done
    cases mode with
    | replace => exact inv.replaces meets
    | append => exact inv.appends meets
  | batch file count =>
    simp only [OpenSession.step] at done
    split at done
    · rename_i active
      obtain rfl := Option.some.inj done
      have parsing := inv.parsing active.1
      refine ⟨⟨(List.append_nil _).symm, ⟨[], (List.append_nil _).symm, by simp⟩, ?_, id, id⟩,
        .inr (.inl ?_)⟩
      · exact fun _ => List.prefix_append ..
      · exact ⟨parsing.workers, parsing.streaming, parsing.inFlight, parsing.mode⟩
    · cases done
  | streamingFinished result disk =>
    simp only [OpenSession.step] at done
    split at done
    · rename_i active
      obtain rfl := Option.some.inj done
      have parsing := inv.parsing active
      obtain ⟨file, alone⟩ := parsing.workers
      have ended : Changes [] (OpenEvent.Replaces (.streamingFinished result disk) ∨
        result ≠ .success)
          (OpenEvent.Replaces (.streamingFinished result disk)) session session.EndStreaming :=
        .of_eq rfl rfl rfl rfl rfl rfl rfl
      have free : session.EndStreaming.Unoccupied := by
        refine ⟨?_, rfl, parsing.inFlight⟩
        rw [EndStreaming, alone]
        rfl
      obtain ⟨changes, outcome⟩ := @Unoccupied.streamingFinished _
        (OpenEvent.Replaces (.streamingFinished result disk) ∨
          result ≠ .success) _ disk free parsing.mode result Or.inr
      exact ⟨ended.trans changes, outcome⟩
    · cases done
  | decompressionFinished result disk =>
    obtain rfl := Option.some.inj done
    by_cases inFlight : session.decompressionInFlight = true
    · exact (inv.decompressing inFlight).finishes result
    · -- A completion that comes too late is ignored.
      rw [OnDecompressionFinished, if_neg inFlight]
      exact ⟨.of_eq rfl rfl rfl rfl rfl rfl rfl, inv.phase⟩

/-- The invariant is kept. -/
theorem Inv.next (inv : session.Inv) {event : OpenEvent} (meets : session.Meets event)
    (done : session.step event = some after) : after.Inv := by
  obtain ⟨changes, phase⟩ := inv.step meets done
  exact ⟨phase, changes.accounted inv.accounted, changes.balanced inv.balanced⟩

/-- An event that meets the condition behaves. -/
theorem Inv.behaves (inv : session.Inv) {event : OpenEvent} (meets : session.Meets event) :
    session.Behaves event := by
  intro after done
  obtain ⟨changes, phase⟩ := inv.step meets done
  have next := inv.next meets done
  -- The phase says which worker is active, if any.
  have workers : after.workers.length ≤ 1 ∧ (after.streamingActive = true ↔
    ∃ file, .parse file ∈ after.workers) ∧
      (after.decompressionInFlight = true ↔ ∃ file, .decompress file ∈ after.workers) := by
    rcases phase with settled | parsing | decompressing
    · simp [settled.workers, settled.streaming, settled.inFlight]
    · obtain ⟨file, alone⟩ := parsing.workers
      simp [alone, parsing.streaming, parsing.inFlight]
    · simp [decompressing.workers, decompressing.streaming, decompressing.inFlight]
  refine ⟨workers.1, workers.2.1, workers.2.2, changes.queued, next.accounted, changes.departures,
    changes.rows, ?_⟩
  intro none_
  have settled : after.Settled := by
    rcases phase with settled | parsing | decompressing
    · exact settled
    · obtain ⟨file, alone⟩ := parsing.workers
      simp [alone] at none_
    · simp [decompressing.workers] at none_
  have told := next.balanced
  rw [Balanced, owed, settled.openErrors, settled.decompressionErrors, List.map_nil, List.map_nil,
    List.append_nil,
    List.append_nil] at told
  exact ⟨settled.files, settled.mode, told⟩

end Steps

/-- In every run from a finished session that meets the condition at each of its events,
every event behaves. -/
theorem run_accounts {rows : List String} {events : List OpenEvent}
    (meets : CleanRun step Meets (finished rows) events) :
    CleanRun step Behaves (finished rows) events := by
  have start : (finished rows).Inv := ⟨.inl ⟨⟨rfl, rfl, rfl⟩, rfl, rfl, rfl, rfl⟩, rfl, .refl _⟩
  exact meets.imp (fun _ _ _ inv meets done => inv.next meets done) (fun _ _ inv meets =>
    inv.behaves meets) start

/-- A disk with a compressed file and a file that cannot be opened. -/
def sampleDisk (path : String) : OpenProbe :=
  if path = "packed.gz" then .compressed
  else if path = "gone.log" then .unopenable "not found"
  else .plain

/-- Files are appended to a finished session: one that is gone, one that is parsed, and one that
fails to decompress. -/
def appendEvents : List OpenEvent :=
  [.opened ["gone.log", "new.log"] .append true sampleDisk, .batch "new.log" 2,
    .opened ["packed.gz"] .append true sampleDisk, .streamingFinished .success sampleDisk,
    .decompressionFinished (.failed .unknown) sampleDisk]

/-- The files that are appended are accounted for, and both errors are shown at the end. -/
theorem appendEvents_account : CleanRun step Behaves (finished ["old.log"]) appendEvents ∧
    (appendEvents.foldlM step (finished ["old.log"])).map
      (fun after => (after.rows, after.reports)) =
      some (["old.log", "new.log", "new.log"],
        [⟨openErrorTitle, ["Failed to open 'gone.log': not found"]⟩,
          ⟨decompressionErrorTitle, ["Failed to decompress 'packed.gz': unknown error"]⟩]) := by
  -- The plain file opens, so its rows come.
  have opens : ∀ what, sampleDisk "new.log" ≠ .unopenable what := by
    intro what
    have plain : sampleDisk "new.log" = .plain := by decide
    rw [plain]
    exact OpenProbe.noConfusion
  -- The packed file is probed, and decompressing it is what fails.
  have packed : ∀ what, sampleDisk "packed.gz" ≠ .unopenable what := by
    intro what
    have compressed : sampleDisk "packed.gz" = .compressed := by decide
    rw [compressed]
    exact OpenProbe.noConfusion
  refine ⟨run_accounts ⟨?_, fun _ _ =>
    ⟨trivial, fun _ _ => ⟨?_, fun _ _ => ⟨trivial, fun _ _ => ⟨trivial, ?_⟩⟩⟩⟩⟩, ?_⟩
  · exact fun _ => ⟨"new.log", by simp, opens⟩
  · exact fun _ => ⟨"packed.gz", by simp, packed⟩
  · exact fun _ _ => trivial
  · decide +kernel

/-- A file that is gone is appended to a finished session: no worker is active, but the mode stays
static and the error is not shown. A session is replaced while the error of a decompression waits:
it is never shown. -/
theorem refusedAppend_stuck :
    let stuck := (finished ["old.log"]).StartStreamingOpenQueue ["gone.log"] .append true sampleDisk
    let waiting := [.opened ["packed.gz", "new.log"] .append true sampleDisk,
      .decompressionFinished (.failed .unknown) sampleDisk].foldlM step (finished [])
    let replaced := [.opened ["packed.gz", "new.log"] .append true sampleDisk,
      .decompressionFinished (.failed .unknown) sampleDisk,
      .opened ["gone.log"] .replace true sampleDisk].foldlM
      step (finished [])
    stuck.workers = [] ∧ stuck.mode = .static ∧ stuck.failures.length = 1 ∧ stuck.reports = [] ∧
      ¬CleanRun step Behaves (finished ["old.log"]) [.opened ["gone.log"] .append true sampleDisk] ∧
      waiting.map (fun session => (session.workers, session.pendingDecompressionErrors.length)) =
        some ([.parse "new.log"], 1) ∧
      replaced.map (fun session => (session.workers, session.failures.length, session.reports)) =
        some ([], 2, [⟨openErrorTitle, ["Failed to open 'gone.log': not found"]⟩]) := by
  intro stuck waiting replaced
  have alone : stuck.workers = [] := by decide +kernel
  have active : stuck.mode = .static := by decide +kernel
  refine ⟨alone, active, by decide +kernel, by decide +kernel, fun behaves => ?_,
    by decide +kernel, by decide +kernel⟩
  -- An idle session would have to be settled; this one still says static.
  have settled := (behaves.1 stuck rfl).settled alone
  exact absurd (active.symm.trans settled.2.1) (by decide)

end OpenSession

end Loglib
