import Loglib.App.ParseErrorBatches

/-! The dock of parse errors: one list for the session that is bound, and a log for each session. -/

namespace Loglib

open SessionParseErrorBatch (NoneEmpty errorCount evict trimToCap kept dropErrors titledErrors)

/-- `MAX_DISPLAYED_ERRORS`. -/
@[irreducible] def maxDisplayedErrors : Nat := 1000

/-- `SessionParseErrorLog`. -/
structure SessionParseErrorLog where
  batches : List SessionParseErrorBatch
  droppedCount : Nat
  hasSeenFirstBatch : Bool

/-- The log of a new session. -/
def SessionParseErrorLog.empty : SessionParseErrorLog := ⟨[], 0, false⟩

/-- An item of the list. Only errors can be selected. -/
inductive ErrorItem where
  | header (title : Utf16Text)
  | error (text : Utf16Text)
  | footer (droppedCount : Nat)
deriving DecidableEq

/-- Whether an item can be selected. -/
def ErrorItem.isSelectable : ErrorItem → Bool
  | .error _ => true
  | _ => false

/-- Whether an item has the role of the overflow footer. -/
def ErrorItem.isFooter : ErrorItem → Bool
  | .footer _ => true
  | _ => false

/-- A `ParseErrorsDock`, with the logs of the sessions. -/
structure ParseErrorsDock (σ : Type*) where
  list : List ErrorItem
  batchShadow : List SessionParseErrorBatch
  errorCount : Nat
  droppedCount : Nat
  hasSeenFirstBatch : Bool
  boundSession : Option σ
  logs : σ → SessionParseErrorLog

/-- A call of the dock. The session of an append is `none` for the one that is bound, and of a bind
for none at all. -/
inductive DockCall (σ : Type*) where
  | appendErrorsForSession (originating : Option σ) (title : Utf16Text) (errors : List Bytes)
  | clearErrors
  | bind (incoming : Option σ)
  | unbind

namespace ParseErrorsDock

section Items

/-- The loop that evicts from the top, with the title of the last evicted header. -/
def evictItems (cap : Nat) : (errorCount droppedCount : Nat) → (evictedHeader : Option Utf16Text) →
    List ErrorItem →
    List ErrorItem × Nat × Nat × Option Utf16Text
  | errorCount, droppedCount, evictedHeader, [] => ([], errorCount, droppedCount, evictedHeader)
  | errorCount, droppedCount, evictedHeader, item :: rest =>
    if errorCount ≤ cap then (item :: rest, errorCount, droppedCount, evictedHeader)
    else match item with
      | .error _ => evictItems cap (errorCount - 1) (droppedCount + 1) evictedHeader rest
      | .header title => evictItems cap errorCount droppedCount (some title) rest
      | .footer _ => evictItems cap errorCount droppedCount evictedHeader rest

/-- The evicted header comes back in front of an error that has lost it. -/
def remintHeader (evictedHeader : Option Utf16Text) (list : List ErrorItem) : List ErrorItem :=
  match evictedHeader, list with
  | some title, first :: rest =>
    if first.isSelectable then .header title :: first :: rest else first :: rest
  | _, _ => list

/-- A header goes from the front if no error is behind it. -/
def compactOrphans : List ErrorItem → List ErrorItem
  | [] => []
  | first :: rest =>
    if first.isSelectable then first :: rest
    else if rest.head?.any ErrorItem.isSelectable then first :: rest
    else compactOrphans rest

/-- The list without a footer at its end. -/
def stripFooter (list : List ErrorItem) : List ErrorItem :=
  if list.getLast?.any ErrorItem.isFooter then list.dropLast else list

/-- `RebuildOverflowFooter`. -/
def rebuildOverflowFooter (droppedCount : Nat) (list : List ErrorItem) : List ErrorItem :=
  if droppedCount = 0 then list else list ++ [.footer droppedCount]

end Items

variable {σ : Type*} [DecidableEq σ] (fromStdString : Bytes → Utf16Text) (dock : ParseErrorsDock σ)

/-- A dock without sessions' errors. -/
def initial : ParseErrorsDock σ := ⟨[], [], 0, 0, false, none, fun _ => .empty⟩

/-- The items of a batch. -/
def batchItems (batch : SessionParseErrorBatch) : List ErrorItem :=
  .header batch.title :: batch.errors.map fun error => .error (fromStdString error)

/-- `TrimToCap`. -/
def trimItems : ParseErrorsDock σ :=
  if dock.errorCount ≤ maxDisplayedErrors then dock
  else
    let (list, errorCount, droppedCount, evictedHeader) :=
      evictItems maxDisplayedErrors dock.errorCount dock.droppedCount none dock.list
    { dock with list := compactOrphans (remintHeader evictedHeader list), errorCount, droppedCount }

/-- `TrimShadowToCap`, whose sibling counts the dropped errors. -/
def trimShadowToCap : ParseErrorsDock σ :=
  { dock with batchShadow := (trimToCap maxDisplayedErrors 0 dock.batchShadow).1 }

/-- A batch for the session that is shown. -/
def appendVisible (title : Utf16Text) (errors : List Bytes) : ParseErrorsDock σ :=
  let errorsBegin := errors.length - maxDisplayedErrors
  let batch : SessionParseErrorBatch := ⟨title, errors.drop errorsBegin⟩
  -- The footer goes before the new items come, and comes back with the new count.
  let appended : ParseErrorsDock σ :=
    { dock with
      list := stripFooter dock.list ++ batchItems fromStdString batch
      batchShadow := dock.batchShadow ++ [batch]
      errorCount := dock.errorCount + batch.errors.length
      droppedCount := dock.droppedCount + errorsBegin
      hasSeenFirstBatch := true }
  let trimmed := appended.trimItems.trimShadowToCap
  { trimmed with list := rebuildOverflowFooter trimmed.droppedCount trimmed.list }

/-- `AppendErrorsIntoSessionLog`. -/
def appendErrorsIntoSessionLog (log : SessionParseErrorLog) (title : Utf16Text)
    (errors : List Bytes) : SessionParseErrorLog :=
  let errorsBegin := errors.length - maxDisplayedErrors
  let (batches, droppedCount) :=
    trimToCap maxDisplayedErrors (log.droppedCount + errorsBegin)
      (log.batches ++ [⟨title, errors.drop errorsBegin⟩])
  ⟨batches, droppedCount, true⟩

/-- The title of a batch, which is never empty. -/
def effectiveTitle (title : Utf16Text) : Utf16Text :=
  if title.chars = [] then .ofString "Errors" else title

/-- `AppendErrorsForSession`. -/
def appendErrorsForSession (originating : Option σ) (title : Utf16Text) (errors : List Bytes) :
    ParseErrorsDock σ :=
  if errors = [] then dock
  else match originating with
    | none => dock.appendVisible fromStdString (effectiveTitle title) errors
    | some session =>
      -- The session that is shown has its errors in the list, and any other in its log.
      if dock.boundSession = some session then dock.appendVisible fromStdString
        (effectiveTitle title) errors
      else
        { dock with
          logs := Function.update dock.logs session
            (appendErrorsIntoSessionLog (dock.logs session) (effectiveTitle title) errors) }

/-- The dock without visible errors. The first batch has still been seen. -/
def clearVisible : ParseErrorsDock σ :=
  { dock with list := [], batchShadow := [], errorCount := 0, droppedCount := 0 }

/-- `ClearErrors`. -/
def clearErrors : ParseErrorsDock σ :=
  -- A dock that shows nothing leaves the log alone.
  if dock.list = [] ∧ dock.errorCount = 0 ∧ dock.droppedCount = 0 then dock
  else match dock.boundSession with
    | none => dock.clearVisible
    | some session =>
      { dock.clearVisible with
        logs := Function.update dock.logs session
          { dock.logs session with batches := [], droppedCount := 0 } }

/-- The bound session's log takes what is shown. -/
def saveOutgoing : ParseErrorsDock σ :=
  match dock.boundSession with
  | none => dock
  | some outgoing =>
    { dock with
      logs := Function.update dock.logs outgoing
        ⟨dock.batchShadow, dock.droppedCount, dock.hasSeenFirstBatch⟩ }

/-- `ReplayLogIntoVisibleList`, into a list that is empty. -/
def replayLogIntoVisibleList (log : SessionParseErrorLog) : ParseErrorsDock σ :=
  { dock with
    list := rebuildOverflowFooter log.droppedCount
      (dock.list ++ log.batches.flatMap (batchItems fromStdString))
    batchShadow := dock.batchShadow ++ log.batches
    errorCount := dock.errorCount + (log.batches.map (·.errors.length)).sum
    droppedCount := log.droppedCount
    hasSeenFirstBatch := log.hasSeenFirstBatch }

/-- `Bind`. A session that is bound already stays. -/
def bind (incoming : Option σ) : ParseErrorsDock σ :=
  if dock.boundSession.isSome ∧ dock.boundSession = incoming then dock
  else
    -- The outgoing session takes what is shown before the list is emptied.
    let cleared : ParseErrorsDock σ :=
      { dock.saveOutgoing.clearVisible with hasSeenFirstBatch := false, boundSession := incoming }
    match incoming with
    | none => cleared
    | some session => cleared.replayLogIntoVisibleList fromStdString (cleared.logs session)

/-- `Unbind`. -/
def unbind : ParseErrorsDock σ :=
  { dock.saveOutgoing.clearVisible with hasSeenFirstBatch := false, boundSession := none }

/-- A call. -/
def step : DockCall σ → ParseErrorsDock σ
  | .appendErrorsForSession originating title errors =>
    dock.appendErrorsForSession fromStdString originating title errors
  | .clearErrors => dock.clearErrors
  | .bind incoming => dock.bind fromStdString incoming
  | .unbind => dock.unbind

/-- The dock after some calls. -/
def run (calls : List (DockCall σ)) : ParseErrorsDock σ := calls.foldl (step fromStdString) dock

end ParseErrorsDock

end Loglib
