import Loglib.App.ParseErrorsDock

/-! Parse errors over all calls: every session shows, or has in its log, the last errors
of its own history. -/

namespace Loglib

open SessionParseErrorBatch

/-- The errors that sessions have been given since they were last cleared, and the session that is
bound. While none is bound, the errors are nobody's. -/
structure ErrorHistories (σ : Type*) where
  bound : Option σ
  history : Option σ → List SessionParseErrorBatch

namespace ErrorHistories

variable {σ : Type*} [DecidableEq σ] (histories : ErrorHistories σ)

/-- No errors yet. -/
def initial : ErrorHistories σ := ⟨none, fun _ => []⟩

/-- What a call does to the histories. Errors that are nobody's end with the next change
of the session. -/
def step : DockCall σ → ErrorHistories σ
  | .appendErrorsForSession originating title errors =>
    let session := originating.or histories.bound
    if errors = [] then histories
    else
      { histories with
        history := Function.update histories.history session
          (histories.history session ++ [⟨ParseErrorsDock.effectiveTitle title, errors⟩]) }
  | .clearErrors =>
    { histories with history := Function.update histories.history histories.bound [] }
  | .bind incoming =>
    -- Binding the session that is bound already changes nothing.
    if histories.bound.isSome ∧ histories.bound = incoming then histories
    else ⟨incoming, Function.update histories.history none []⟩
  | .unbind => ⟨none, Function.update histories.history none []⟩

/-- The histories after some calls. -/
def run (calls : List (DockCall σ)) : ErrorHistories σ := calls.foldl step histories

end ErrorHistories

namespace ParseErrorsDock

section Items

variable {cap : Nat} (fromStdString : Bytes → Utf16Text) {batches : List SessionParseErrorBatch}

/-- The items of batches. -/
def listItems (batches : List SessionParseErrorBatch) : List ErrorItem := batches.flatMap
    (batchItems fromStdString)

/-- One round of the eviction. -/
theorem evictItems_cons (errorCount droppedCount : Nat) (evictedHeader : Option Utf16Text)
    (item : ErrorItem) (rest : List ErrorItem) :
    evictItems cap errorCount droppedCount evictedHeader (item :: rest) =
      if errorCount ≤ cap then (item :: rest, errorCount, droppedCount, evictedHeader)
      else match item with
        | .error _ => evictItems cap (errorCount - 1) (droppedCount + 1) evictedHeader rest
        | .header title => evictItems cap errorCount droppedCount (some title) rest
        | .footer _ => evictItems cap errorCount droppedCount evictedHeader rest := by
  cases item <;> rfl

/-- Errors are evicted one by one, as many as are above the cap. -/
theorem evictItems_errors {errorCount droppedCount : Nat} {evictedHeader : Option Utf16Text}
    (above : cap ≤ errorCount)
    (errors : List Bytes) (tail : List ErrorItem) :
    evictItems cap errorCount droppedCount evictedHeader
      (errors.map (fun error => .error (fromStdString error)) ++ tail) =
      if errors.length ≤ errorCount - cap then
        evictItems cap (errorCount - errors.length)
          (droppedCount + errors.length) evictedHeader tail
      else ((errors.drop (errorCount - cap)).map (fun error =>
        .error (fromStdString error)) ++ tail, cap,
        droppedCount + (errorCount - cap), evictedHeader) := by
  induction errors generalizing errorCount droppedCount with
  | nil => rfl
  | cons error rest ih =>
    rw [List.map_cons, List.cons_append, evictItems_cons, List.length_cons]
    -- At the cap the eviction ends, and above it the first error goes.
    by_cases full : errorCount ≤ cap
    · have same : errorCount = cap := Nat.le_antisymm full above
      subst same
      rw [if_pos le_rfl, Nat.sub_self, if_neg (by omega), List.drop_zero, Nat.add_zero]
      rfl
    · rw [if_neg full]
      dsimp only
      rw [ih (by omega)]
      have fewer : errorCount - cap = errorCount - 1 - cap + 1 := by omega
      have counted : droppedCount + 1 + rest.length = droppedCount + (rest.length + 1) := by omega
      have left : errorCount - 1 - rest.length = errorCount - (rest.length + 1) := by omega
      by_cases all : rest.length ≤ errorCount - 1 - cap
      · rw [if_pos all, if_pos (by omega), counted, left]
      · rw [if_neg all, if_neg (by omega), fewer, List.drop_succ_cons]
        congr 3
        omega

/-- Nothing is evicted under the cap. -/
theorem evictItems_of_le {errorCount : Nat} (under : errorCount ≤ cap) (droppedCount : Nat)
    (evictedHeader : Option Utf16Text)
    (list : List ErrorItem) :
    evictItems cap errorCount droppedCount evictedHeader list = (list, errorCount, droppedCount,
      evictedHeader) := by
  cases list with
  | nil => rfl
  | cons item rest => rw [evictItems_cons, if_pos under]

/-- A list of batches starts with a header, so none comes back. -/
theorem remintHeader_listItems (evictedHeader : Option Utf16Text)
    (batches : List SessionParseErrorBatch) :
    remintHeader evictedHeader
      (listItems fromStdString batches) = listItems fromStdString batches := by
  cases evictedHeader <;> cases batches <;> rfl

/-- The eviction from the list leaves the batches without their first errors, once the header has
come back. -/
theorem evictItems_listItems (noneEmpty : NoneEmpty batches) {total : Nat}
    (counted : total = SessionParseErrorBatch.errorCount batches)
    (above : cap ≤ total) (droppedCount : Nat) (evictedHeader : Option Utf16Text) :
    ∃ list lastHeader, evictItems cap total droppedCount evictedHeader
      (listItems fromStdString batches) =
        (list, cap, droppedCount + (total - cap), lastHeader) ∧
      remintHeader lastHeader list = listItems fromStdString
        (dropErrors (total - cap) batches) := by
  induction batches generalizing total droppedCount evictedHeader with
  | nil =>
    have none_ : total = 0 := counted
    have capNone : cap = 0 := by omega
    subst none_ capNone
    exact ⟨[], evictedHeader, rfl, by cases evictedHeader <;> rfl⟩
  | cons head rest ih =>
    have restNonempty := noneEmpty_rest noneEmpty
    by_cases under : total ≤ cap
    · have same : total = cap := Nat.le_antisymm under above
      subst same
      rw [evictItems_of_le le_rfl, Nat.sub_self, dropErrors_zero noneEmpty]
      exact ⟨_, _, rfl, remintHeader_listItems fromStdString evictedHeader _⟩
    · rw [errorCount_cons] at counted
      have items : listItems fromStdString (head :: rest) = .header head.title ::
          (head.errors.map (fun error => .error (fromStdString error)) ++
            listItems fromStdString rest) := rfl
      rw [items, evictItems_cons, if_neg under]
      dsimp only
      rw [evictItems_errors fromStdString above, dropErrors]
      -- Either the batch goes as a whole, or its header comes back in front of what is left.
      by_cases all : head.errors.length ≤ total - cap
      · rw [if_pos all, if_pos all]
        have leaves : total - head.errors.length = SessionParseErrorBatch.errorCount rest := by
          omega
        obtain ⟨list, lastHeader, evicted, reminted⟩ := ih restNonempty leaves
          (by omega) (droppedCount + head.errors.length) (some head.title)
        have dropped : droppedCount + head.errors.length + (total - head.errors.length - cap) =
            droppedCount + (total - cap) := by omega
        have left : total - head.errors.length - cap = total - cap - head.errors.length := by omega
        rw [dropped] at evicted
        rw [left] at reminted
        exact ⟨list, lastHeader, evicted, reminted⟩
      · rw [if_neg all, if_neg all]
        refine ⟨_, _, rfl, ?_⟩
        cases left : head.errors.drop (total - cap) with
        | nil =>
          have length := congrArg List.length left
          rw [List.length_drop, List.length_nil] at length
          omega
        | cons error more => rfl

/-- No header of the batches is an orphan. -/
theorem compactOrphans_listItems (noneEmpty : NoneEmpty batches) :
    compactOrphans (listItems fromStdString batches) = listItems fromStdString batches := by
  cases batches with
  | nil => rfl
  | cons head rest =>
    cases errors : head.errors with
    | nil => exact absurd errors (noneEmpty head List.mem_cons_self)
    | cons error more =>
      -- An error stands behind the first header.
      rw [listItems, List.flatMap_cons, batchItems, errors]
      rfl

/-- The batches have no footer among their items. -/
theorem isFooter_of_mem_listItems {item : ErrorItem}
    (listed : item ∈ listItems fromStdString batches) :
    item.isFooter = false := by
  obtain ⟨batch, -, inBatch⟩ := List.mem_flatMap.mp listed
  rcases List.mem_cons.mp inBatch with rfl | inErrors
  · rfl
  · obtain ⟨error, -, rfl⟩ := List.mem_map.mp inErrors
    rfl

/-- The footer is stripped as it was put there. -/
theorem stripFooter_rebuildOverflowFooter (droppedCount : Nat)
    (batches : List SessionParseErrorBatch) :
    stripFooter (rebuildOverflowFooter droppedCount (listItems fromStdString batches)) =
      listItems fromStdString batches := by
  unfold rebuildOverflowFooter stripFooter
  split
  · -- Without a footer the last item, if there is one, is an error.
    cases last : (listItems fromStdString batches).getLast? with
    | none => rfl
    | some item =>
      rw [Option.any_some, isFooter_of_mem_listItems fromStdString (List.mem_of_getLast? last)]
      rfl
  · rw [List.getLast?_concat, Option.any_some, List.dropLast_concat]
    rfl

end Items

section Agreement

variable {σ : Type*} (fromStdString : Bytes → Utf16Text) {dock : ParseErrorsDock σ}
    {histories : ErrorHistories σ}

/-- The dock shows the kept errors of the session that is bound, in its list, its shadow and its
counters, and each other session has the kept errors of its own in its log. -/
structure Agrees (dock : ParseErrorsDock σ) (histories : ErrorHistories σ) : Prop where
  bound : dock.boundSession = histories.bound
  noneEmpty : ∀ session, NoneEmpty (histories.history session)
  shadow : dock.batchShadow = kept maxDisplayedErrors (histories.history histories.bound)
  errors : dock.errorCount = min maxDisplayedErrors
    (SessionParseErrorBatch.errorCount (histories.history histories.bound))
  dropped : dock.droppedCount = SessionParseErrorBatch.errorCount
    (histories.history histories.bound) - maxDisplayedErrors
  list : dock.list = rebuildOverflowFooter dock.droppedCount
    (listItems fromStdString (kept maxDisplayedErrors (histories.history histories.bound)))
  logs : ∀ session, histories.bound ≠ some session →
    (dock.logs session).batches = kept maxDisplayedErrors (histories.history (some session)) ∧
      (dock.logs session).droppedCount =
        SessionParseErrorBatch.errorCount (histories.history (some session)) - maxDisplayedErrors

/-- The list is trimmed to the kept errors, with all counters. -/
theorem trimItems_eq (dock : ParseErrorsDock σ) {batches : List SessionParseErrorBatch}
    (noneEmpty : NoneEmpty batches)
    (list : dock.list = listItems fromStdString batches)
    (counted : dock.errorCount = SessionParseErrorBatch.errorCount batches) :
    dock.trimItems = { dock with
      list := listItems fromStdString (kept maxDisplayedErrors batches)
      errorCount := min maxDisplayedErrors dock.errorCount
      droppedCount := dock.droppedCount + (dock.errorCount - maxDisplayedErrors) } := by
  unfold trimItems
  split
  · -- Nothing goes, and the kept errors are all of them.
    rename_i under
    rw [kept, ← counted, Nat.sub_eq_zero_of_le under, dropErrors_zero noneEmpty,
      Nat.min_eq_right under, Nat.add_zero, ← list]
  · -- The eviction cuts the items as the batches are cut, and leaves no orphan.
    rename_i more
    obtain ⟨left, lastHeader, evicted, reminted⟩ :=
      evictItems_listItems fromStdString noneEmpty counted (Nat.le_of_not_le more)
        dock.droppedCount none
    rw [list, evicted]
    dsimp only
    rw [reminted, compactOrphans_listItems fromStdString (noneEmpty_dropErrors noneEmpty _),
      Nat.min_eq_left (Nat.le_of_not_le more), kept, counted]

/-- Nothing has been given, and nothing is shown. -/
theorem initial_agrees :
    Agrees fromStdString (initial : ParseErrorsDock σ) ErrorHistories.initial :=
  ⟨rfl, fun _ _ listed => absurd listed List.not_mem_nil, rfl, (Nat.min_zero _).symm,
    (Nat.zero_sub _).symm, rfl,
    fun _ _ => ⟨rfl, (Nat.zero_sub _).symm⟩⟩

variable [DecidableEq σ]

/-- A batch in a history that goes on. -/
theorem noneEmpty_append {history : List SessionParseErrorBatch} (noneEmpty : NoneEmpty history)
    {batch : SessionParseErrorBatch} (some_ : batch.errors ≠ []) :
    NoneEmpty (history ++ [batch]) := by
  intro other listed
  rcases List.mem_append.mp listed with before | last
  · exact noneEmpty other before
  · rw [List.mem_singleton.mp last]
    exact some_

/-- The part of a batch that fits is not empty. -/
theorem fitting_some {cap : Nat} (positive : 0 < cap) {errors : List Bytes} (some_ : errors ≠ []) :
    errors.drop (errors.length - cap) ≠ [] := by
  have length := List.length_pos_iff.mpr some_
  exact List.length_pos_iff.mp (by rw [List.length_drop]; omega)

/-- The cap is not zero. -/
theorem maxDisplayedErrors_pos : 0 < maxDisplayedErrors := by
  unfold maxDisplayedErrors
  omega

/-- A visible batch goes to the history of the session that is bound. -/
theorem appendVisible_agrees (agrees : Agrees fromStdString dock histories) (title : Utf16Text)
    {errors : List Bytes}
    (some_ : errors ≠ []) :
    Agrees fromStdString (dock.appendVisible fromStdString title errors) { histories with
      history := Function.update histories.history histories.bound
        (histories.history histories.bound ++ [⟨title, errors⟩]) } := by
  obtain ⟨bound, noneEmpty, shadow, count, dropped, list, logs⟩ := agrees
  have own := noneEmpty histories.bound
  -- The dock appends only the part of the batch that fits, which the cap makes no difference to.
  let batch : SessionParseErrorBatch := ⟨title, errors⟩
  let fitting : SessionParseErrorBatch := ⟨title, errors.drop (errors.length - maxDisplayedErrors)⟩
  have fittingSome : fitting.errors ≠ [] := fitting_some maxDisplayedErrors_pos some_
  have joined : NoneEmpty (kept maxDisplayedErrors (histories.history histories.bound) ++
      [fitting]) :=
    noneEmpty_append (noneEmpty_dropErrors own _) fittingSome
  have keeps : kept maxDisplayedErrors
    (kept maxDisplayedErrors (histories.history histories.bound) ++ [fitting]) =
      kept maxDisplayedErrors (histories.history histories.bound ++ [batch]) :=
    kept_append batch maxDisplayedErrors_pos own some_
  have fittingLength : fitting.errors.length = errors.length -
      (errors.length - maxDisplayedErrors) := List.length_drop
  have joinedCount : SessionParseErrorBatch.errorCount
    (kept maxDisplayedErrors (histories.history histories.bound) ++ [fitting]) =
      dock.errorCount + fitting.errors.length := by
    rw [errorCount_append, errorCount_kept, errorCount_single, count]
  -- Without its footer the list is that of the shadow.
  have items : stripFooter dock.list ++ batchItems fromStdString fitting =
      listItems fromStdString (kept maxDisplayedErrors (histories.history histories.bound) ++
        [fitting]) := by
    rw [list, stripFooter_rebuildOverflowFooter, listItems, listItems, List.flatMap_append,
      List.flatMap_singleton]
  have trimmed := trimItems_eq fromStdString { dock with
      list := stripFooter dock.list ++ batchItems fromStdString fitting
      batchShadow := dock.batchShadow ++ [fitting]
      errorCount := dock.errorCount + fitting.errors.length
      droppedCount := dock.droppedCount + (errors.length - maxDisplayedErrors)
      hasSeenFirstBatch := true } joined items joinedCount.symm
  have total : SessionParseErrorBatch.errorCount (histories.history histories.bound ++ [batch]) =
      SessionParseErrorBatch.errorCount (histories.history histories.bound) + errors.length := by
    rw [errorCount_append, errorCount_single]
  -- The errors that did not fit and the ones that are evicted are the ones above the cap.
  have sum : dock.droppedCount + (errors.length - maxDisplayedErrors) +
      (dock.errorCount + fitting.errors.length - maxDisplayedErrors) =
      SessionParseErrorBatch.errorCount (histories.history histories.bound) + errors.length -
        maxDisplayedErrors := by
    rw [dropped, count, fittingLength]
    omega
  unfold appendVisible
  dsimp only
  rw [trimmed]
  refine ⟨bound, fun session => ?_, ?_, ?_, ?_, ?_, fun session other => ?_⟩
  · by_cases same : session = histories.bound
    · rw [same]
      simp only [Function.update_self]
      exact noneEmpty_append own some_
    · simp only [Function.update_of_ne same]
      exact noneEmpty session
  · simp only [trimShadowToCap, Function.update_self, shadow]
    rw [trimToCap_eq joined, keeps]
  · simp only [trimShadowToCap, Function.update_self]
    rw [total, count, fittingLength]
    omega
  · simp only [trimShadowToCap, Function.update_self]
    rw [total, sum]
  · simp only [trimShadowToCap, Function.update_self]
    rw [keeps]
  · have differs : some session ≠ histories.bound := fun same => other same.symm
    simp only [trimShadowToCap, Function.update_of_ne differs]
    exact logs session other

/-- A batch for another session goes to its history. -/
theorem appendErrorsIntoSessionLog_eq {log : SessionParseErrorLog}
    {history : List SessionParseErrorBatch}
    (noneEmpty : NoneEmpty history) (batches : log.batches = kept maxDisplayedErrors history)
    (dropped : log.droppedCount = SessionParseErrorBatch.errorCount history - maxDisplayedErrors)
    (title : Utf16Text)
    {errors : List Bytes} (some_ : errors ≠ []) :
    appendErrorsIntoSessionLog log title errors =
      ⟨kept maxDisplayedErrors (history ++ [⟨title, errors⟩]),
        SessionParseErrorBatch.errorCount (history ++ [⟨title, errors⟩]) - maxDisplayedErrors,
          true⟩ := by
  -- What of the new errors fits under the cap is not empty.
  have fittingSome := fitting_some maxDisplayedErrors_pos some_
  have joined : NoneEmpty (kept maxDisplayedErrors history ++
      [⟨title, errors.drop (errors.length - maxDisplayedErrors)⟩]) :=
    noneEmpty_append (noneEmpty_dropErrors noneEmpty _) fittingSome
  have keeps := kept_append ⟨title, errors⟩ maxDisplayedErrors_pos noneEmpty some_
  unfold appendErrorsIntoSessionLog
  dsimp only
  rw [batches, trimToCap_eq joined, keeps, dropped, errorCount_append, errorCount_append,
    errorCount_kept, errorCount_single,
    errorCount_single,
    List.length_drop]
  dsimp only
  congr 1
  omega

/-- A batch for another session goes to the history of that session, and to its log. -/
theorem appendLog_agrees (agrees : Agrees fromStdString dock histories) {session : σ}
    (other : histories.bound ≠ some session)
    (title : Utf16Text) {errors : List Bytes} (some_ : errors ≠ []) :
    Agrees fromStdString
      { dock with
        logs := Function.update dock.logs session
          (appendErrorsIntoSessionLog (dock.logs session) title errors) }
      { histories with
        history := Function.update histories.history (some session)
          (histories.history (some session) ++ [⟨title, errors⟩]) } := by
  obtain ⟨batches, dropped⟩ := agrees.logs session other
  have logged := appendErrorsIntoSessionLog_eq (agrees.noneEmpty (some session)) batches dropped
    title some_
  -- Only the log of the session changes, and only its history.
  refine ⟨agrees.bound, fun target => ?_, ?_, ?_, ?_, ?_, fun target differs => ?_⟩
  · by_cases same : target = some session
    · rw [same]
      simp only [Function.update_self]
      exact noneEmpty_append (agrees.noneEmpty _) some_
    · simp only [Function.update_of_ne same]
      exact agrees.noneEmpty target
  · simp only [Function.update_of_ne other]
    exact agrees.shadow
  · simp only [Function.update_of_ne other]
    exact agrees.errors
  · simp only [Function.update_of_ne other]
    exact agrees.dropped
  · simp only [Function.update_of_ne other]
    exact agrees.list
  · by_cases same : target = session
    · simp only [same, Function.update_self, logged, and_self]
    · simp only [Function.update_of_ne same, Function.update_of_ne fun own =>
        same (Option.some.inj own)]
      exact agrees.logs target differs

/-- Once the bound session's log has taken what is shown, every log is right. -/
theorem saveOutgoing_logs (agrees : Agrees fromStdString dock histories) (session : σ) :
    (dock.saveOutgoing.logs session).batches = kept maxDisplayedErrors
      (histories.history (some session)) ∧
      (dock.saveOutgoing.logs session).droppedCount =
        SessionParseErrorBatch.errorCount
          (histories.history (some session)) - maxDisplayedErrors := by
  obtain ⟨bound, -, shadow, -, dropped, -, logs⟩ := agrees
  unfold saveOutgoing
  cases outgoing : dock.boundSession with
  | none => exact logs session fun same => by rw [← bound, outgoing] at same; cases same
  | some other =>
    rw [outgoing] at bound
    -- The outgoing session has what is shown, and the others what their logs had.
    by_cases same : session = other
    · rw [← bound, ← same] at shadow dropped
      simp only [same, Function.update_self]
      rw [← same]
      exact ⟨shadow, dropped⟩
    · simp only [Function.update_of_ne same]
      exact logs session fun own => same (Option.some.inj (bound.trans own)).symm

/-- The dock without a session, and without errors. -/
theorem agrees_unbound (agrees : Agrees fromStdString dock histories) :
    Agrees fromStdString { dock.saveOutgoing.clearVisible with
      hasSeenFirstBatch := false
      boundSession := none }
      ⟨none, Function.update histories.history none []⟩ := by
  have saved := saveOutgoing_logs fromStdString agrees
  -- The unbound history begins empty, and so does what is shown; the session's log keeps what it
  -- had.
  refine ⟨rfl, fun session => ?_, ?_, ?_, ?_, ?_, fun session _ => ?_⟩
  · by_cases own : session = none
    · rw [own]
      exact fun batch listed => absurd listed (by simp)
    · simp only [Function.update_of_ne own]
      exact agrees.noneEmpty session
  · simp only [Function.update_self]
    rfl
  · simp only [Function.update_self]
    exact (Nat.min_zero _).symm
  · simp only [Function.update_self]
    exact (Nat.zero_sub _).symm
  · simp only [Function.update_self]
    rfl
  · simp only [Function.update_of_ne (Option.some_ne_none session)]
    exact saved session

/-- Clearing ends the history of the session that is bound. -/
theorem clearErrors_agrees (agrees : Agrees fromStdString dock histories) :
    Agrees fromStdString dock.clearErrors (histories.step .clearErrors) := by
  obtain ⟨bound, noneEmpty, shadow, count, dropped, list, logs⟩ := agrees
  have positive := maxDisplayedErrors_pos
  -- Whatever happens to the bound session's log, the other logs and histories stay.
  have clears {cleared : ParseErrorsDock σ} (kept_ : cleared.boundSession = dock.boundSession)
      (empty : cleared.list = [] ∧ cleared.batchShadow = [] ∧ cleared.errorCount = 0 ∧
        cleared.droppedCount = 0)
      (others : ∀ session, histories.bound ≠ some session →
        cleared.logs session = dock.logs session) :
      Agrees fromStdString cleared (histories.step .clearErrors) := by
    obtain ⟨emptyList, emptyShadow, noErrors, noneDropped⟩ := empty
    refine ⟨kept_.trans bound, fun session => ?_, ?_, ?_, ?_, ?_, fun session other => ?_⟩
    · simp only [ErrorHistories.step]
      by_cases own : session = histories.bound
      · rw [own, Function.update_self]
        exact fun batch listed => absurd listed List.not_mem_nil
      · rw [Function.update_of_ne own]
        exact noneEmpty session
    · simp only [ErrorHistories.step, Function.update_self]
      exact emptyShadow
    · simp only [ErrorHistories.step, Function.update_self]
      exact noErrors.trans (Nat.min_zero _).symm
    · simp only [ErrorHistories.step, Function.update_self]
      exact noneDropped.trans (Nat.zero_sub _).symm
    · simp only [ErrorHistories.step, Function.update_self, noneDropped]
      exact emptyList
    · have differs : some session ≠ histories.bound := Ne.symm other
      simp only [ErrorHistories.step, Function.update_of_ne differs, others session other]
      exact logs session other
  unfold clearErrors
  split
  · rename_i nothing
    obtain ⟨emptyList, noErrors, noneDropped⟩ := nothing
    -- Without errors and without dropped ones the history has none, so nothing is left
    -- in the shadow.
    have empty : SessionParseErrorBatch.errorCount (histories.history histories.bound) = 0 := by
      omega
    have shadowCount : SessionParseErrorBatch.errorCount dock.batchShadow = 0 := by
      rw [shadow, errorCount_kept, empty, Nat.min_zero]
    have shadowNonempty : NoneEmpty dock.batchShadow :=
      shadow ▸ noneEmpty_dropErrors (noneEmpty _) _
    exact clears rfl ⟨emptyList, eq_nil_of_errorCount shadowNonempty shadowCount, noErrors,
      noneDropped⟩ fun _ _ => rfl
  · cases own : dock.boundSession with
    | none => exact clears rfl ⟨rfl, rfl, rfl, rfl⟩ fun _ _ => rfl
    | some session =>
      refine clears rfl ⟨rfl, rfl, rfl, rfl⟩ fun other differs => ?_
      have not_ : other ≠ session := fun same => differs (by rw [← bound, own, same])
      exact Function.update_of_ne not_ _ _

/-- A session that comes to be bound shows what its log holds. -/
theorem replay_agrees (agrees : Agrees fromStdString dock histories) (session : σ) :
    let cleared : ParseErrorsDock σ :=
      { dock.saveOutgoing.clearVisible with
        hasSeenFirstBatch := false
        boundSession := some session }
    Agrees fromStdString (cleared.replayLogIntoVisibleList fromStdString (cleared.logs session))
      ⟨some session, Function.update histories.history none []⟩ := by
  intro cleared
  have saved := saveOutgoing_logs fromStdString agrees
  obtain ⟨batches, dropped⟩ := saved session
  -- Only the history of nobody ends.
  have own : Function.update histories.history none [] (some session) = histories.history
      (some session) :=
    Function.update_of_ne (Option.some_ne_none session) _ _
  refine ⟨rfl, fun target => ?_, ?_, ?_, ?_, ?_, fun target _ => ?_⟩
  · by_cases none_ : target = none
    · rw [none_]
      simp only [Function.update_self]
      exact fun batch listed => absurd listed List.not_mem_nil
    · simp only [Function.update_of_ne none_]
      exact agrees.noneEmpty target
  · simp only [own]
    exact batches
  · simp only [own]
    rw [← errorCount_kept, ← batches]
    exact Nat.zero_add _
  · simp only [own]
    exact dropped
  · simp only [own]
    rw [← batches]
    rfl
  · simp only [Function.update_of_ne (Option.some_ne_none target)]
    exact saved target

/-- A call keeps the dock and the histories in agreement. -/
theorem step_agrees (agrees : Agrees fromStdString dock histories) (call : DockCall σ) :
    Agrees fromStdString (dock.step fromStdString call) (histories.step call) := by
  have bound := agrees.bound
  -- No errors are no batch.
  cases call with
  | appendErrorsForSession originating title errors =>
    simp only [step, appendErrorsForSession, ErrorHistories.step]
    by_cases empty : errors = []
    · rw [if_pos empty, if_pos empty]
      exact agrees
    · rw [if_neg empty, if_neg empty]
      cases originating with
      | none => exact appendVisible_agrees fromStdString agrees _ empty
      | some session =>
        -- The session is the one on screen, so its batch is shown.
        by_cases shown : dock.boundSession = some session
        · have target : (some session).or histories.bound = histories.bound := by
            rw [← bound, shown]; rfl
          simp only [if_pos shown, target]
          exact appendVisible_agrees fromStdString agrees _ empty
        · -- Another session's batch goes to its log alone.
          have other : histories.bound ≠ some session := fun same => shown (bound.trans same)
          simp only [if_neg shown, Option.some_or]
          exact appendLog_agrees fromStdString agrees other _ empty
  | clearErrors => exact clearErrors_agrees fromStdString agrees
  | bind incoming =>
    simp only [step, bind, ErrorHistories.step, bound]
    split
    · exact agrees
    · -- The outgoing session is saved first, and the log of the incoming one is replayed.
      cases incoming with
      | none => exact agrees_unbound fromStdString agrees
      | some session => exact replay_agrees fromStdString agrees session
  | unbind => exact agrees_unbound fromStdString agrees

/-- All calls keep the dock and the histories in agreement. -/
theorem run_agrees (agrees : Agrees fromStdString dock histories) (calls : List (DockCall σ)) :
    Agrees fromStdString (dock.run fromStdString calls) (histories.run calls) := by
  induction calls generalizing dock histories with
  | nil => exact agrees
  | cons call rest ih => exact ih (step_agrees fromStdString agrees call)

/-- Parse errors do not depend on which session is shown: after any calls every session has the last
errors of its own history since it was last cleared, up to the cap, under the titles of their own
batches. The session that is bound has them in the list, in the shadow and in the counters, and any
other in its log. -/
theorem run_keepsLastErrors (calls : List (DockCall σ)) (session : σ) :
    let dock := (initial : ParseErrorsDock σ).run fromStdString calls
    let histories := (ErrorHistories.initial : ErrorHistories σ).run calls
    let history := histories.history (some session)
    let total := SessionParseErrorBatch.errorCount history
    let shown := min maxDisplayedErrors total
    ∃ batches, batches = dropErrors (total - shown) history ∧ NoneEmpty batches ∧
      titledErrors batches = (titledErrors history).rtake shown ∧
        SessionParseErrorBatch.errorCount batches = shown ∧
      dock.boundSession = histories.bound ∧
      (dock.boundSession = some session →
        dock.batchShadow = batches ∧ dock.errorCount = shown ∧ dock.droppedCount = total - shown ∧
        dock.list = batches.flatMap (batchItems fromStdString) ++ if total - shown = 0 then []
          else [.footer (total - shown)]) ∧
      (dock.boundSession ≠ some session →
        (dock.logs session).batches = batches ∧
          (dock.logs session).droppedCount = total - shown) := by
  intro dock histories history total shown
  have agrees : Agrees fromStdString dock histories :=
    run_agrees fromStdString (initial_agrees fromStdString) calls
  -- Above the cap are the errors that are not shown.
  have above : total - maxDisplayedErrors = total - shown := by omega
  have keeps : kept maxDisplayedErrors history = dropErrors (total - shown) history :=
    congrArg (dropErrors · history) above
  refine ⟨dropErrors (total - shown) history, rfl, noneEmpty_dropErrors (agrees.noneEmpty _) _, ?_,
    ?_, agrees.bound,
    fun own => ?_, fun other => ?_⟩
  · rw [titledErrors_dropErrors, List.rtake, length_titledErrors]
  · rw [errorCount_dropErrors]
    omega
  · rw [agrees.bound] at own
    obtain ⟨-, -, shadow, count, dropped, list, -⟩ := agrees
    rw [own] at shadow count dropped list
    refine ⟨shadow.trans keeps, count, dropped.trans above, ?_⟩
    rw [list, dropped, rebuildOverflowFooter]
    simp only [history] at keeps
    rw [keeps]
    simp only [total, history] at above
    rw [above]
    split
    · rw [List.append_nil]
      rfl
    · rfl
  · rw [agrees.bound] at other
    obtain ⟨batches, dropped⟩ := agrees.logs session other
    exact ⟨batches.trans keeps, dropped.trans above⟩

end Agreement

end ParseErrorsDock

end Loglib
