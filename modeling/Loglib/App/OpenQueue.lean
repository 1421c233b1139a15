import Mathlib

/-! The open queue of a session: files are opened, decompressed and parsed one after another. -/

namespace Loglib

/-- How a call of the open queue treats the session. -/
inductive OpenMode where
  | append
  | replace
deriving DecidableEq

/-- What a session is doing. -/
inductive SessionMode where
  | idle
  | static
  | liveTail
deriving DecidableEq

/-- How a parse ended. -/
inductive StreamingResult where
  | success
  | cancelled
  | failed
deriving DecidableEq

/-- What opening a path meets. -/
inductive OpenProbe where
  | plain
  | compressed
  | unopenable (what : String)
deriving DecidableEq

/-- Why a decompression failed. -/
inductive DecompressionError where
  | codec (what : String)
  | unknown
  | bundleVersion (what : String)
  | bundleRead (what : String)

/-- How a decompression ended; opening what it made may fail. -/
inductive DecompressionResult where
  | success (openError : Option String)
  | failed (error : DecompressionError)
  | cancelled

/-- A worker of the session. -/
inductive OpenWorker where
  | parse (file : String)
  | decompress (file : String)
deriving DecidableEq

/-- Does the worker parse? -/
def OpenWorker.isParse : OpenWorker → Bool
  | .parse _ => true
  | .decompress _ => false

/-- A file that left the queue, taken or discarded. -/
structure Departure where
  file : String
  taken : Bool
deriving DecidableEq

/-- The errors of one call of `ShowParseErrors`. -/
structure ParseErrorReport where
  title : String
  errors : List String
deriving DecidableEq

/-- A file that could not be opened or decompressed, with the title and the text of its error. -/
structure OpenFailure where
  file : String
  title : String
  message : String
deriving DecidableEq

/-- The title of the open errors. -/
def openErrorTitle : String := "Error Opening File"

/-- The title of the decompression errors. -/
def decompressionErrorTitle : String := "Error Decompressing File"

/-- The open error of a path. -/
def openErrorText (originalPath what : String) : String :=
  "Failed to open '" ++ originalPath ++ "': " ++ what

/-- The decompression error of a path. -/
def DecompressionError.errorEntry (originalPath : String) : DecompressionError → String
  | .codec what => "Failed to decompress '" ++ originalPath ++ "': " ++ what
  | .unknown => "Failed to decompress '" ++ originalPath ++ "': unknown error"
  | .bundleVersion what => "Cannot open session bundle '" ++ originalPath ++ "': " ++ what
  | .bundleRead what => "'" ++ originalPath ++ "' is not a valid session bundle: " ++ what

/-- A session as the open queue sees it. A row is the file it came from. The last four fields are
its history: what was shown, the files that failed, the files that were queued and those that left
the queue. -/
structure OpenSession where
  mode : SessionMode
  pendingOpenFiles : List String
  pendingOpenErrors : List String
  pendingDecompressionErrors : List String
  decompressionInFlight : Bool
  decompressionOriginalPath : String
  streamingActive : Bool
  workers : List OpenWorker
  rows : List String
  reports : List ParseErrorReport
  failures : List OpenFailure
  queued : List String
  departures : List Departure
deriving DecidableEq

namespace OpenSession

/-- `IsSessionActive`. -/
def IsSessionActive (session : OpenSession) : Bool := session.mode ≠ .idle

/-- `ShowParseErrors`: no errors, no report. -/
def ShowParseErrors (session : OpenSession) (title : String) (errors : List String) : OpenSession :=
  if errors = [] then session else { session with reports := session.reports ++ [⟨title, errors⟩] }

/-- Both buckets are shown under their titles, and cleared. -/
def ShowPendingErrors (session : OpenSession) : OpenSession :=
  { (session.ShowParseErrors openErrorTitle session.pendingOpenErrors).ShowParseErrors decompressionErrorTitle
      session.pendingDecompressionErrors with pendingOpenErrors := [], pendingDecompressionErrors :=
        [] }

/-- `takeFirst` of a queue that is not empty. -/
def TakeFirst (session : OpenSession) (file : String) (rest : List String) : OpenSession :=
  { session with pendingOpenFiles := rest, departures := session.departures ++ [⟨file, true⟩] }

/-- The queue is cleared. -/
def ClearPendingOpenFiles (session : OpenSession) : OpenSession :=
  { session with
    pendingOpenFiles := []
    departures := session.departures ++ session.pendingOpenFiles.map fun file => ⟨file, false⟩ }

/-- Files are queued behind the others. -/
def QueueFiles (session : OpenSession) (files : List String) : OpenSession :=
  { session with
    pendingOpenFiles := session.pendingOpenFiles ++ files
    queued := session.queued ++ files }

/-- `SetPendingOpenFiles`: the files are the whole queue. -/
def SetPendingOpenFiles (session : OpenSession) (files : List String) : OpenSession :=
  session.ClearPendingOpenFiles.QueueFiles files

/-- `BeginAsyncDecompression`. -/
def BeginAsyncDecompression (session : OpenSession) (originalPath : String) : OpenSession :=
  { session with
    decompressionOriginalPath := originalPath
    decompressionInFlight := true
    workers := session.workers ++ [.decompress originalPath] }

/-- `BeginStreaming`: the rows are cleared. -/
def BeginStreaming (session : OpenSession) (file : String) : OpenSession :=
  { session with rows := [], streamingActive := true, workers := session.workers ++ [.parse file] }

/-- `AppendStreaming`. -/
def AppendStreaming (session : OpenSession) (file : String) : OpenSession :=
  { session with streamingActive := true, workers := session.workers ++ [.parse file] }

/-- A file could not be opened. -/
def PushOpenError (session : OpenSession) (originalPath message : String) : OpenSession :=
  { session with
    pendingOpenErrors := session.pendingOpenErrors ++ [message]
    failures := session.failures ++ [⟨originalPath, openErrorTitle, message⟩] }

/-- A file could not be decompressed. -/
def PushDecompressionError (session : OpenSession) (originalPath message : String) : OpenSession :=
  { session with
    pendingDecompressionErrors := session.pendingDecompressionErrors ++ [message]
    failures := session.failures ++ [⟨originalPath, decompressionErrorTitle, message⟩] }

/-- `ContinueOpenAfterPrepared`: is a parse armed, and the session. -/
def ContinueOpenAfterPrepared (session : OpenSession) (originalPath : String)
    (openError : Option String)
    (anchored : Bool) : Bool × OpenSession :=
  match openError with
  | some what =>
    let message := openErrorText originalPath what
    -- What was decompressed and does not open counts as a decompression error.
    (false, if anchored then session.PushDecompressionError originalPath message
      else session.PushOpenError originalPath message)
  | none =>
    if session.IsSessionActive then (true, session.AppendStreaming originalPath)
    else (true, { session with mode := .static }.BeginStreaming originalPath)

/-- The loop of `StreamNextPendingFile` over the queue. -/
def StreamPendingFiles (disk : String → OpenProbe) : List String → OpenSession → OpenSession
  -- A queue that drains without a session shows its errors here.
  | [], session => if session.IsSessionActive then session else session.ShowPendingErrors
  | file :: rest, session =>
    let session := session.TakeFirst file rest
    match disk file with
    | .compressed => session.BeginAsyncDecompression file
    | .plain => (session.ContinueOpenAfterPrepared file none false).2
    | .unopenable what =>
      StreamPendingFiles disk rest (session.ContinueOpenAfterPrepared file (some what) false).2

/-- `StreamNextPendingFile`. -/
def StreamNextPendingFile (session : OpenSession) (disk : String → OpenProbe) : OpenSession :=
  StreamPendingFiles disk session.pendingOpenFiles session

/-- `CancelInFlightDecompressionFor`: the worker is drained, and the decompression errors
are cleared. -/
def CancelInFlightDecompression (session : OpenSession) : OpenSession :=
  { session with
    decompressionInFlight := false
    decompressionOriginalPath := ""
    pendingDecompressionErrors := []
    workers := session.workers.eraseP (!·.isParse) }

/-- `OnStreamingFinished`, when the parse is no longer active. -/
def OnStreamingFinished (session : OpenSession) (result : StreamingResult)
    (disk : String → OpenProbe) : OpenSession :=
  let advances : Bool := result = .success ∧ session.pendingOpenFiles ≠ []
  let next := if advances then session.StreamNextPendingFile disk else session.ClearPendingOpenFiles
  if advances ∧ (next.streamingActive ∨ next.decompressionInFlight) then next
  else
    let ended := { next with mode := .idle }.ShowPendingErrors
    if result = .failed then ended.CancelInFlightDecompression else ended

/-- The parse worker is no longer active. -/
def EndStreaming (session : OpenSession) : OpenSession :=
  { session with streamingActive := false, workers := session.workers.eraseP (·.isParse) }

/-- `LogModel::Reset`: the parse is stopped and the rows are cleared; a parse that was active is
cancelled. -/
def ResetModel (session : OpenSession) (disk : String → OpenProbe) : OpenSession :=
  let reset := { session.EndStreaming with rows := [] }
  if session.streamingActive then reset.OnStreamingFinished .cancelled disk else reset

/-- `FinalizeAfterDecompressionIfChainTerminal`. -/
def FinalizeAfterDecompressionIfChainTerminal (session : OpenSession) : OpenSession :=
  if session.streamingActive ∨ session.decompressionInFlight then session
  else
    let shown := session.ShowPendingErrors
    if shown.IsSessionActive then { shown with mode := .idle } else shown

/-- The queue goes on after a decompression that armed no parse. -/
def ContinueAfterDecompression (session : OpenSession) (disk : String → OpenProbe) : OpenSession :=
  ({ session with decompressionOriginalPath := "" }.StreamNextPendingFile
    disk).FinalizeAfterDecompressionIfChainTerminal

/-- The decompression is no longer in flight. -/
def EndDecompression (session : OpenSession) : OpenSession :=
  { session with decompressionInFlight := false, workers := session.workers.eraseP (!·.isParse) }

/-- `OnDecompressionFinishedFor`. -/
def OnDecompressionFinished (session : OpenSession) (result : DecompressionResult)
    (disk : String → OpenProbe) :
    OpenSession :=
  -- A result that comes after a cancellation has nothing to finish.
  if session.decompressionInFlight then
    let path := session.decompressionOriginalPath
    let finished := session.EndDecompression
    match result with
    -- A cancelled file is passed over without a report.
    | .cancelled => finished.ContinueAfterDecompression disk
    | .failed error =>
      (finished.PushDecompressionError path (error.errorEntry path)).ContinueAfterDecompression disk
    | .success openError =>
      let opened := finished.ContinueOpenAfterPrepared path openError true
      -- A file that has been opened ends the turn; the queue goes on when its parse ends.
      if opened.1 then { opened.2 with decompressionOriginalPath := "" }
        else opened.2.ContinueAfterDecompression disk
  else session

/-- Does the call tear the session down? -/
def Destructive (session : OpenSession) (mode : OpenMode) : Bool :=
  mode = .replace ∨ session.mode = .liveTail

/-- The files are the queue, the buckets are empty, and the first file is opened. -/
def ArmQueue (session : OpenSession) (files : List String) (disk : String → OpenProbe) :
    OpenSession :=
  { session.SetPendingOpenFiles files with pendingOpenErrors := [], pendingDecompressionErrors := []
    }.StreamNextPendingFile disk

/-- `StartStreamingOpenQueue`; `closes` says whether the session may be closed. -/
def StartStreamingOpenQueue (session : OpenSession) (files : List String) (mode : OpenMode)
    (closes : Bool)
    (disk : String → OpenProbe) : OpenSession :=
  if session.Destructive mode then
    if closes then
      { session.CancelInFlightDecompression.ResetModel disk with mode := .idle }.ArmQueue files disk
    else session
  else if session.streamingActive ∨ session.decompressionInFlight then session.QueueFiles files
  -- A finished session is active again, so that its rows stay.
  else if session.mode = .idle ∧ session.rows ≠ [] then
    { session with mode := .static }.ArmQueue files disk
  else session.ArmQueue files disk

end OpenSession

/-- What happens to a session; each event meets the disk as it is then. -/
inductive OpenEvent where
  | opened (files : List String) (mode : OpenMode) (closes : Bool) (disk : String → OpenProbe)
  | batch (file : String) (count : Nat)
  | streamingFinished (result : StreamingResult) (disk : String → OpenProbe)
  | decompressionFinished (result : DecompressionResult) (disk : String → OpenProbe)

namespace OpenSession

/-- One event; rows come from the parse that is active, and only that parse finishes. -/
def step (session : OpenSession) : OpenEvent → Option OpenSession
  | .opened files mode closes disk => some (session.StartStreamingOpenQueue files mode closes disk)
  | .batch file count =>
    if session.streamingActive ∧ .parse file ∈ session.workers then
      some { session with rows := session.rows ++ List.replicate count file }
    else none
  | .streamingFinished result disk =>
    if session.streamingActive then some (session.EndStreaming.OnStreamingFinished result disk)
      else none
  | .decompressionFinished result disk => some (session.OnDecompressionFinished result disk)

/-- A static session whose files were all opened: any rows, and nothing under way. -/
def finished (rows : List String) : OpenSession where
  mode := .idle
  pendingOpenFiles := []
  pendingOpenErrors := []
  pendingDecompressionErrors := []
  decompressionInFlight := false
  decompressionOriginalPath := ""
  streamingActive := false
  workers := []
  rows := rows
  reports := []
  failures := []
  queued := []
  departures := []

end OpenSession

end Loglib
