import Loglib.App.HistogramModel
import Loglib.App.ModelRows
import Loglib.App.SinkDelivery

/-! A live tail under a retention cap: the rows that each step of its worker and its window brings
or drops, the rows that are announced, and the anchors that go with them. -/

namespace Loglib

/-- `static_cast<int>` of a count. -/
def intOfCount (count : Nat) : Int := (Int32.ofNat count).toInt

/-- A retention cap in force. Twice a cap is still an `int`; the preferences offer a
million at most. -/
def RetentionCap := { cap : Nat // 0 < cap ∧ cap < 2 ^ 30 }

/-- A range of rows as the model announces it, with its first and last row. -/
inductive RowSignal where
  | rowsRemoved (first last : Int)
  | rowsInserted (first last : Int)
deriving DecidableEq, Repr

namespace LogModel

/-- The rows that make room for a batch, counted in the `int`s of `AppendBatch`. -/
def intDropCount (model : LogModel) (batch : StreamedBatch) : Int :=
  let newRowCount := intOfCount (model.table.previewAppend batch).newRowCount
  if model.retentionCap ≠ 0 ∧ 0 < newRowCount ∧ (model.retentionCap : Int) < newRowCount then
    min (newRowCount - intOfCount model.retentionCap) (intOfCount model.table.rowCount)
  else 0

/-- The row signals of `AppendBatch`, for the batch that is left after the collapse. -/
def appendSignals (model : LogModel) (batch : StreamedBatch) : List RowSignal :=
  let dropCount := model.intDropCount batch
  let newRowCount := intOfCount (model.table.previewAppend batch).newRowCount - max dropCount 0
  let currentRowCount := intOfCount (model.evictFor batch).table.rowCount
  (if 0 < dropCount then [.rowsRemoved 0 (dropCount - 1)] else []) ++
    if currentRowCount < newRowCount then [.rowsInserted currentRowCount (newRowCount - 1)] else []

/-- The visible rows that `SetRetentionCap` trims. -/
def trimCount (model : LogModel) (cap : Nat) (paused : Bool) : Nat :=
  if cap = 0 ∨ model.streamingActive = false ∨ paused then 0 else model.table.rowCount - cap

end LogModel

namespace SinkBatch

/-- The owners of a batch's rows. -/
def owners (batch : SinkBatch) : List LineOwner := batch.lines.map LogLine.owner

end SinkBatch

/-- The model of a live tail, its sink and its anchors. Which rows have come to the model or to the
paused buffer, and what the last call announced, are kept for the statements. -/
structure TailSession where
  model : LogModel
  system : SinkSystem
  anchors : AnchorManager
  /-- The canonical locator of each source. -/
  locators : Nat → Bytes
  /-- How many rows `SetRetentionCap` is about to leave in the paused buffer. -/
  trimming : Option Nat
  /-- The rows that were shown, with those that were dropped from the paused buffer in front of
  shown ones. -/
  shown : List LineOwner
  /-- The rows that came to the paused buffer since the stream was paused. -/
  held : List LineOwner
  signals : List RowSignal
  /-- The last call has ended in `AppendBatch`. -/
  appended : Bool

/-- What happens to a live tail: a batch of its parser, an access of its worker to the sink, a call
on the window's thread, a line that the parser stores, and an edit of the anchors. `SetRetentionCap`
may be in two parts. -/
inductive TailStep where
  | onBatch (batch : SinkBatch)
  | worker
  | runEvent
  | drainAll (asks : SignalReads)
  | pause
  | resume (asks : SignalReads)
  | setRetentionCap (cap : RetentionCap)
  | trimPausedBufferTo
  | parserLine (source : Nat) (rawLine ownedBytes : Bytes)
  | editAnchors (anchors : AnchorManager)

namespace TailSession

/-- A live tail begins: no rows, and a cap in force. -/
def start (model : LogModel) (stream : StreamLineSource) (cap : RetentionCap) (capacity : Nat)
    (locators : Nat → Bytes)
    (anchors : AnchorManager) : TailSession where
  model := { model.beginStreaming (some (.stream stream)) with retentionCap := cap.val }
  system :=
    let begun := SinkSystem.start capacity
    { begun with sink := { begun.sink with retentionCap := cap.val } }
  anchors := anchors
  locators := locators
  trimming := none
  shown := []
  held := []
  signals := []
  appended := false

/-- The rows on screen. -/
def owners (session : TailSession) : List LineOwner := session.model.table.owners

/-- The rows in the queue. -/
def queued (session : TailSession) : List LineOwner :=
  session.system.sink.pending.flatMap SinkBatch.owners

/-- The rows in the paused buffer. -/
def buffered (session : TailSession) : List LineOwner :=
  session.system.sink.pausedBatches.flatMap SinkBatch.owners

/-- The rows in the hands of the worker. -/
def inHand (session : TailSession) : List LineOwner :=
  session.system.worker.inHand.flatMap SinkBatch.owners

/-- The rows of all `OnBatch` calls. -/
def received (session : TailSession) : List LineOwner :=
  session.system.received.flatMap SinkBatch.owners

/-- One line comes before another in its stream. -/
def Before (first second : LineOwner) : Prop := first.1 = second.1 ∧ first.2 < second.2

/-- Owners are compared by evaluation. -/
instance (first second : LineOwner) : Decidable (Before first second) := inferInstanceAs
    (Decidable (_ ∧ _))

/-- The batch of a live tail: it has no offsets and spans of a file, and its lines are numbered on
from those before. -/
def FollowsOn (session : TailSession) (batch : SinkBatch) : Prop :=
  (batch.localLineOffsets = [] ∧ batch.multiLineSpans = []) ∧
    (session.received ++ batch.owners).Pairwise Before

/-- Whether a batch follows on can be evaluated. -/
instance (session : TailSession) (batch : SinkBatch) : Decidable (session.FollowsOn batch) :=
  inferInstanceAs (Decidable ((_ ∧ _) ∧ _))

/-- The anchor key of a line. -/
def keyOf (session : TailSession) (owner : LineOwner) : AnchorKey :=
  ⟨session.locators owner.1, owner.2⟩

/-- `CollectAnchorKeysInPrefix`. -/
def collectAnchorKeysInPrefix (session : TailSession) (dropCount : Nat) : List AnchorKey :=
  if session.anchors.entries.isEmpty then []
  else (List.range dropCount).filterMap (HistogramSource.anchorKeyForRow ⟨session.model.table,
    session.locators⟩)

/-- The anchors of evicted rows are removed, in one call. -/
def releaseAnchors (session : TailSession) (dropCount : Nat) : AnchorManager :=
  let evictedAnchorKeys := session.collectAnchorKeysInPrefix dropCount
  if evictedAnchorKeys.isEmpty then session.anchors
    else (session.anchors.removeAnchors evictedAnchorKeys).1

/-- A call that announces nothing. -/
def quiet (session : TailSession) : TailSession := { session with signals := [], appended := false }

/-- `AppendBatch`. -/
def appendBatch (parse : TimestampParser) (asks : SignalReads) (session : TailSession)
    (batch : StreamedBatch) :
    Option TailSession :=
  (session.model.appendBatch parse asks batch).map fun model =>
    { session with
      model
      anchors := session.releaseAnchors
        (session.model.dropCount (session.model.collapseBatch batch))
      signals := session.model.appendSignals (session.model.collapseBatch batch)
      appended := true }

/-- `AppendBatch` of what the sink hands over, if it does. -/
def appendHanded (parse : TimestampParser) (asks : SignalReads) (session : TailSession) :
    List SinkBatch → Option TailSession
  | [] => some session
  | batch :: _ => session.appendBatch parse asks batch.toStreamedBatch

/-- A step of the sink by which rows are shown. -/
def handOver (parse : TimestampParser) (asks : SignalReads) (session : TailSession)
    (item : SinkStep)
    (more held : List LineOwner) : Option TailSession :=
  (session.system.step item).bind fun system =>
    { session.quiet with system, shown := session.shown ++ more, held }.appendHanded parse asks
      (system.handed.drop session.system.handed.length)

/-- A step of the sink by which none is. -/
def sinkStep (session : TailSession) (item : SinkStep) : Option TailSession :=
  (session.system.step item).map fun system => { session.quiet with system }

/-- The rows that the next access of the worker puts into the paused buffer. -/
def arriving (session : TailSession) : List LineOwner :=
  match session.system.worker with
  | .buffering batch _ => if session.system.sink.paused then batch.owners else []
  | _ => []

/-- `SetRetentionCap`, up to `TrimPausedBufferTo` where the stream is paused. -/
def setRetentionCap (session : TailSession) (cap : Nat) : Option TailSession :=
  (session.system.step (.setRetentionCap cap)).map fun system =>
    let visible := session.model.table.rowCount
    let dropCount := session.model.trimCount cap session.system.sink.paused
    { session with
      model := session.model.setRetentionCap cap session.system.sink.paused
      system
      -- A paused session goes on to trim its buffer to what the new cap leaves room for.
      trimming :=
        if cap = 0 ∨ session.model.streamingActive = false ∨
          session.system.sink.paused = false then none
        else some (if cap ≤ visible then 0 else cap - visible)
      anchors := session.releaseAnchors dropCount
      signals := if 0 < dropCount then [.rowsRemoved 0 (intOfCount dropCount - 1)] else []
      appended := false }

/-- One step. `none` for a batch that is not one of the tail, for an access or a call that cannot
come now, and where `AppendBatch` throws. -/
def step (parse : TimestampParser) (session : TailSession) : TailStep → Option TailSession
  | .onBatch batch => if session.FollowsOn batch then session.sinkStep (.onBatch batch) else none
  | .worker =>
    (session.sinkStep .worker).map fun next =>
      { next with held := session.held ++ session.arriving }
  | .drainAll asks => session.handOver parse asks .drainAll session.queued session.held
  | .trimPausedBufferTo =>
    session.trimming.bind fun room =>
      { session with trimming := none }.sinkStep (.trimPausedBufferTo room)
  -- The other calls of the window's thread wait until the buffer is trimmed.
  | .runEvent => if session.trimming.isSome then none else session.sinkStep .runEvent
  | .pause => if session.trimming.isSome then none else session.sinkStep .pause
  | .resume asks =>
    if session.trimming.isSome then none else session.handOver parse asks .resume session.held []
  | .setRetentionCap cap =>
    if session.trimming.isSome then none else session.setRetentionCap cap.val
  | .parserLine source rawLine ownedBytes =>
    (session.model.step parse (.parserLine source rawLine ownedBytes)).map fun model =>
      { session.quiet with model }
  | .editAnchors anchors => some { session.quiet with anchors }

end TailSession

/-- The signals, one after the other, turn the rows before into the rows after: each names the rows
that go or come. -/
inductive RowSignal.Announces : List RowSignal → List LineOwner → List LineOwner → Prop where
  | done (rows : List LineOwner) : Announces [] rows rows
  | removed (front gone back : List LineOwner) {rest : List RowSignal} {after : List LineOwner}
      (some_ : gone ≠ [])
      (later : Announces rest (front ++ back) after) :
      Announces (.rowsRemoved front.length (front.length + gone.length - 1) :: rest)
        (front ++ gone ++ back) after
  | inserted (front fresh back : List LineOwner) {rest : List RowSignal} {after : List LineOwner}
      (some_ : fresh ≠ [])
      (later : Announces rest (front ++ fresh ++ back) after) :
      Announces (.rowsInserted front.length (front.length + fresh.length - 1) :: rest)
        (front ++ back) after

section Counts

/-- Counts that fit are what they were. -/
theorem intOfCount_eq {count : Nat} (fits : count < 2 ^ 31) : intOfCount count = count :=
  Int32.toInt_ofNat_of_lt fits

variable {model : LogModel} {batch : StreamedBatch}

/-- A collapsed batch has the end of its rows. -/
theorem LogModel.collapseBatch_lines (positive : 0 < model.retentionCap) :
    (model.collapseBatch batch).lines = batch.lines.rtake model.retentionCap := by
  unfold collapseBatch
  split
  · rfl
  · rename_i short
    -- A batch within the cap stays whole.
    rw [rtake_of_length_le (by omega)]

/-- The rows that make room for a batch within the cap. -/
theorem LogModel.dropCount_eq (positive : 0 < model.retentionCap)
    (short : batch.lines.length ≤ model.retentionCap) :
    model.dropCount batch = model.table.rowCount + batch.lines.length - model.retentionCap := by
  have counted : (model.table.previewAppend batch).newRowCount = model.table.rowCount +
      batch.lines.length := rfl
  simp only [dropCount, counted]
  split
  · omega
  · omega

/-- The `int` arithmetic of the source comes to the same. -/
theorem LogModel.intDropCount_eq (positive : 0 < model.retentionCap)
    (small : model.retentionCap < 2 ^ 30)
    (short : batch.lines.length ≤ model.retentionCap) (rows : model.table.rowCount < 2 ^ 30) :
    model.intDropCount batch = model.dropCount batch := by
  rw [dropCount_eq positive short]
  -- All counts are below 2^30, where `int` and `size_t` agree.
  have counted : (model.table.previewAppend batch).newRowCount = model.table.rowCount +
      batch.lines.length := rfl
  unfold intDropCount
  simp only [counted]
  rw [intOfCount_eq (by omega), intOfCount_eq (by omega), intOfCount_eq (by omega)]
  split
  · omega
  · omega

/-- The announced ranges are the rows that go from the front and the rows that come at the end. -/
theorem LogModel.appendSignals_announces (positive : 0 < model.retentionCap)
    (small : model.retentionCap < 2 ^ 30)
    (short : batch.lines.length ≤ model.retentionCap) (rows : model.table.rowCount < 2 ^ 30) :
    RowSignal.Announces (model.appendSignals batch) model.table.owners
      (model.table.owners.drop (model.dropCount batch) ++ batch.lines.map LogLine.owner) := by
  have counted : (model.table.previewAppend batch).newRowCount = model.table.rowCount +
      batch.lines.length := rfl
  have drops := dropCount_eq positive short
  have left_ : (model.evictFor batch).table.rowCount = model.table.rowCount -
      model.dropCount batch := by
    show (model.table.evictPrefixRows _).lines.length = _
    rw [LogTable.evictPrefixRows_lines, List.length_drop]
    rfl
  have all : model.table.owners.length = model.table.rowCount := List.length_map _
  unfold appendSignals
  simp only [intDropCount_eq positive small short rows, counted, left_]
  rw [intOfCount_eq (by omega), intOfCount_eq (by omega)]
  generalize model.dropCount batch = dropCount at drops left_
  have kept : (model.table.owners.drop dropCount).length = model.table.rowCount - dropCount := by
    rw [List.length_drop, all]
  have fresh : (batch.lines.map LogLine.owner).length = batch.lines.length := List.length_map _
  -- The rows that come stand behind those that are left.
  have inserted : RowSignal.Announces
      (if ((model.table.rowCount - dropCount : Nat) : Int) <
          ((model.table.rowCount + batch.lines.length : Nat) : Int) - max (dropCount : Int) 0 then
        [.rowsInserted (model.table.rowCount - dropCount : Nat)
          (((model.table.rowCount + batch.lines.length : Nat) : Int) - max (dropCount : Int) 0 - 1)]
      else []) (model.table.owners.drop dropCount)
      (model.table.owners.drop dropCount ++ batch.lines.map LogLine.owner) := by
    by_cases none_ : batch.lines = []
    · rw [if_neg (by simp only [none_, List.length_nil] at drops ⊢; omega)]
      simp only [none_, List.map_nil, List.append_nil]
      exact .done _
    · have some_ : 0 < batch.lines.length := List.length_pos_iff.mpr none_
      rw [if_pos (by omega)]
      have signal := RowSignal.Announces.inserted (model.table.owners.drop dropCount)
        (batch.lines.map LogLine.owner) []
        (by simpa using none_) (.done _)
      rw [kept, fresh, List.append_nil] at signal
      have last : ((model.table.rowCount + batch.lines.length : Nat) : Int) -
        max (dropCount : Int) 0 - 1 =
          ((model.table.rowCount - dropCount : Nat) : Int) + batch.lines.length - 1 := by omega
      rw [last]
      simpa using signal
  by_cases nothing : dropCount = 0
  · rw [if_neg (by omega), List.nil_append]
    subst nothing
    simpa using inserted
  · rw [if_pos (by omega)]
    -- The rows that go are the first ones.
    have gone : (model.table.owners.take dropCount).length = dropCount := by
      rw [List.length_take, all]
      omega
    have some_ : model.table.owners.take dropCount ≠ [] := by
      rw [← List.length_pos_iff, gone]
      omega
    have signal := RowSignal.Announces.removed [] (model.table.owners.take dropCount)
      (model.table.owners.drop dropCount) some_ inserted
    rw [List.nil_append, List.take_append_drop, gone] at signal
    simpa using signal

end Counts

namespace LogModel

variable {model next : LogModel} {parse : TimestampParser} {asks : SignalReads}
    {batch : StreamedBatch}

/-- What `AppendBatch` does to the rows: some go from the front, and the end of the batch comes. -/
theorem appendBatch_rows (done : model.appendBatch parse asks batch = some next) :
    next.table.owners = model.table.owners.drop (model.dropCount (model.collapseBatch batch)) ++
      (model.collapseBatch batch).lines.map LogLine.owner := by
  rw [(modelFrame_appendBatch done).rows.owners]
  show ((model.table.evictPrefixRows _).lines ++ _).map LogLine.owner = _
  rw [LogTable.evictPrefixRows_lines, List.map_append, List.map_drop]
  rfl

/-- In all, the last rows stay, as many as the cap allows. -/
theorem appendBatch_owners (positive : 0 < model.retentionCap)
    (done : model.appendBatch parse asks batch = some next) :
    next.table.owners =
      (model.table.owners ++ batch.lines.map LogLine.owner).rtake model.retentionCap := by
  have lines := @collapseBatch_lines _ batch positive
  have short : (model.collapseBatch batch).lines.length ≤ model.retentionCap := by
    rw [lines, length_rtake]
    omega
  have all : model.table.owners.length = model.table.rowCount := List.length_map _
  rw [appendBatch_rows done, rtake_append, dropCount_eq positive short, lines, length_rtake]
  unfold List.rtake
  simp only [List.map_drop, List.length_map, all]
  -- The front part loses as many rows either way.
  congr 2
  omega

end LogModel

namespace TailSession

section Steps

variable {session next : TailSession} {parse : TimestampParser} {asks : SignalReads}

/-- The keys of the first rows. -/
theorem collectAnchorKeysInPrefix_eq (some_ : session.anchors.entries.isEmpty = false)
    (dropCount : Nat) :
    session.collectAnchorKeysInPrefix dropCount = (session.owners.take dropCount).map
      session.keyOf := by
  have keys : ∀ count, (List.range count).filterMap
      (HistogramSource.anchorKeyForRow ⟨session.model.table, session.locators⟩) =
        (session.owners.take count).map session.keyOf := by
    intro count
    -- The induction is on the number of rows, and each row adds its key at the end.
    induction count with
    | zero => rfl
    | succ count ih =>
      rw [List.range_succ, List.filterMap_append, ih, List.take_add_one, List.map_append]
      congr 1
      have key : HistogramSource.anchorKeyForRow ⟨session.model.table, session.locators⟩ count =
          session.model.table.lines[count]?.map fun line => session.keyOf line.owner := rfl
      simp only [owners, LogTable.owners, List.getElem?_map]
      cases held : session.model.table.lines[count]? with
      | none => simp [key, held]
      | some line => simp [key, held]
  unfold collectAnchorKeysInPrefix
  rw [if_neg (by simp [some_]), keys]

/-- The anchors of the first rows are gone, and all others stay. -/
theorem find_releaseAnchors (session : TailSession) (dropCount : Nat) (key : AnchorKey) :
    (session.releaseAnchors dropCount).find key =
      if key ∈ (session.owners.take dropCount).map session.keyOf then none
        else session.anchors.find key := by
  cases some_ : session.anchors.entries.isEmpty with
  | true =>
    -- Without anchors there is nothing to remove, and nothing to find.
    have absent : session.anchors.find key = none := by
      cases found : session.anchors.find key with
      | none => rfl
      | some value =>
        have member := KeyedList.mem_entries_iff.mpr found
        rw [List.isEmpty_iff.mp some_] at member
        cases member
    have none_ : session.collectAnchorKeysInPrefix dropCount = [] := by
      unfold collectAnchorKeysInPrefix
      rw [if_pos some_]
    simp [releaseAnchors, none_, absent]
  | false =>
    simp only [releaseAnchors, collectAnchorKeysInPrefix_eq some_]
    cases none_ : ((session.owners.take dropCount).map session.keyOf).isEmpty with
    | true =>
      rw [List.isEmpty_iff.mp none_]
      simp
    | false => exact AnchorManager.find_removeAnchors _ _ _

/-- The rows of a step that are gone after it. -/
def evicted (session next : TailSession) : List LineOwner :=
  session.owners.filter fun owner => owner ∉ next.owners

/-- What a step announces and what it does to the anchors goes with what it does to the rows. -/
structure Accords (session next : TailSession) : Prop where
  announced : RowSignal.Announces next.signals session.owners next.owners
  anchors : ∀ key, next.anchors.find key =
    if key ∈ (session.evicted next).map session.keyOf then none else session.anchors.find key

/-- The rows that are gone are the first ones, where no row comes twice. -/
theorem evicted_eq (gone kept fresh : List LineOwner) (before : session.owners = gone ++ kept)
    (after : next.owners = kept ++ fresh) (distinct : (gone ++ kept ++ fresh).Nodup) :
    session.evicted next = gone := by
  unfold evicted
  rw [before, after, List.filter_append]
  -- No owner is gone and still there, as all of them differ.
  have apart := List.disjoint_of_nodup_append (by rwa [List.append_assoc] at distinct)
  have first : gone.filter (fun owner => owner ∉ kept ++ fresh) = gone := by
    apply List.filter_eq_self.mpr
    intro owner member
    exact decide_eq_true (apart member)
  have second : kept.filter (fun owner => owner ∉ kept ++ fresh) = [] := by
    apply List.filter_eq_nil_iff.mpr
    intro owner member
    simp [member]
  rw [first, second, List.append_nil]

/-- A step that changes no row. -/
theorem accords_of_same (rows : next.owners = session.owners) (signals : next.signals = [])
    (anchors : next.anchors = session.anchors) : session.Accords next := by
  refine ⟨?_, fun key => ?_⟩
  · rw [signals, rows]
    exact .done _
  · -- With the same rows nothing is evicted.
    have none_ : session.evicted next = [] := by
      apply List.filter_eq_nil_iff.mpr
      intro owner member
      simp [rows, member]
    rw [none_, anchors]
    simp

/-- `AppendBatch` accords with its rows, where no line comes twice. -/
theorem appendBatch_accords {batch : StreamedBatch} (positive : 0 < session.model.retentionCap)
    (small : session.model.retentionCap < 2 ^ 30) (rows : session.owners.length < 2 ^ 30)
    (distinct : (session.owners ++ batch.lines.map LogLine.owner).Nodup)
    (done : session.appendBatch parse asks batch = some next) : session.Accords next := by
  obtain ⟨model, appended, same⟩ := Option.map_eq_some_iff.mp done
  have lines := @LogModel.collapseBatch_lines _ batch positive
  have short : (session.model.collapseBatch batch).lines.length ≤ session.model.retentionCap := by
    rw [lines, length_rtake]
    omega
  have counted : session.owners.length = session.model.table.rowCount := List.length_map _
  have after : next.owners =
      session.owners.drop (session.model.dropCount (session.model.collapseBatch batch)) ++
        (session.model.collapseBatch batch).lines.map LogLine.owner := by
    rw [← same]
    exact LogModel.appendBatch_rows appended
  refine ⟨?_, fun key => ?_⟩
  · rw [after, ← same]
    exact LogModel.appendSignals_announces positive small short (by omega)
  · generalize session.model.dropCount (session.model.collapseBatch batch) = dropCount at same after
    have gone : session.evicted next = session.owners.take dropCount := by
      apply evicted_eq _ _ _ (List.take_append_drop dropCount session.owners).symm after
      rw [List.take_append_drop, lines]
      -- The end of the batch has no line twice either.
      have end_ : (batch.lines.rtake session.model.retentionCap).Sublist batch.lines :=
        List.drop_sublist _ _
      exact distinct.sublist (List.Sublist.append_left (end_.map LogLine.owner) _)
    rw [gone, ← same]
    exact find_releaseAnchors session dropCount key

/-- `AppendBatch` changes the model, the anchors and the record of the call. -/
theorem appendBatch_frame {batch : StreamedBatch}
    (done : session.appendBatch parse asks batch = some next) :
    next.system = session.system ∧ (next.shown = session.shown ∧ next.held = session.held) ∧
      next.model.retentionCap = session.model.retentionCap ∧
      next.model.streamingActive = session.model.streamingActive := by
  obtain ⟨model, appended, same⟩ := Option.map_eq_some_iff.mp done
  rw [← same]
  have frame := LogModel.modelFrame_appendBatch appended
  exact ⟨rfl, ⟨rfl, rfl⟩, frame.retentionCap, frame.streamingActive⟩

/-- `SetRetentionCap` leaves all rows, or the last ones. -/
theorem setRetentionCap_owners {cap : Nat} (done : session.setRetentionCap cap = some next) :
    next.owners = session.owners.drop (session.model.trimCount cap session.system.sink.paused) := by
  obtain ⟨system, -, rfl⟩ := Option.map_eq_some_iff.mp done
  show (session.model.setRetentionCap cap session.system.sink.paused).table.owners = _
  simp only [LogModel.setRetentionCap, LogModel.trimCount]
  split
  · rfl
  · split
    · show ((session.model.table.evictPrefixRows _).lines).map LogLine.owner = _
      rw [LogTable.evictPrefixRows_lines, List.map_drop]
      rfl
    · rename_i within
      -- The rows fit, so there is nothing to trim.
      have none_ : session.model.table.rowCount - cap = 0 := by omega
      rw [none_, List.drop_zero]
      rfl

/-- And it accords with its rows. -/
theorem setRetentionCap_accords {cap : Nat} (rows : session.owners.length < 2 ^ 30)
    (distinct : session.owners.Nodup)
    (done : session.setRetentionCap cap = some next) : session.Accords next := by
  have counted : session.owners.length = session.model.table.rowCount := List.length_map _
  have after := setRetentionCap_owners done
  -- No more rows are trimmed than there are.
  have bound : session.model.trimCount cap session.system.sink.paused ≤ session.owners.length := by
    unfold LogModel.trimCount
    split
    · exact Nat.zero_le _
    · omega
  -- The signal and the anchors are those of the trimmed rows.
  obtain ⟨system, -, same⟩ := Option.map_eq_some_iff.mp done
  have signals : next.signals =
      if 0 < session.model.trimCount cap session.system.sink.paused then
        [.rowsRemoved 0 (intOfCount (session.model.trimCount cap session.system.sink.paused) - 1)]
          else [] := same ▸ rfl
  have anchors : next.anchors = session.releaseAnchors
      (session.model.trimCount cap session.system.sink.paused) := same ▸ rfl
  generalize session.model.trimCount cap session.system.sink.paused =
    dropCount at after bound signals anchors
  refine ⟨?_, fun key => ?_⟩
  · rw [signals, after]
    -- Nothing is trimmed and nothing signalled; or the first rows go, and the signal names them.
    by_cases nothing : dropCount = 0
    · rw [nothing, if_neg (Nat.lt_irrefl 0), List.drop_zero]
      exact .done _
    · rw [if_pos (by omega), intOfCount_eq (by omega)]
      have gone : (session.owners.take dropCount).length = dropCount := by
        rw [List.length_take]
        omega
      have some_ : session.owners.take dropCount ≠ [] := by
        rw [← List.length_pos_iff, gone]
        omega
      have signal := RowSignal.Announces.removed [] (session.owners.take dropCount)
        (session.owners.drop dropCount)
        some_ (.done _)
      rw [List.nil_append, List.take_append_drop, gone] at signal
      simpa using signal
  · -- The rows that have gone are the first ones, and their anchors go with them.
    have gone : session.evicted next = session.owners.take dropCount := by
      apply evicted_eq (session.owners.take dropCount) (session.owners.drop dropCount) []
      · exact (List.take_append_drop dropCount session.owners).symm
      · rw [after, List.append_nil]
      · rwa [List.append_nil, List.take_append_drop]
    rw [gone, anchors]
    exact find_releaseAnchors session dropCount key

end Steps

end TailSession

namespace SinkBatch

/-- The owners of the rows of several batches. -/
theorem owners_coalesce (batches : List SinkBatch) :
    (coalesce batches).lines.map LogLine.owner = batches.flatMap owners := by
  unfold coalesce owners
  rw [List.map_flatMap]

/-- How many there are. -/
theorem length_flatMap_owners (batches : List SinkBatch) :
    (batches.flatMap owners).length = lineCount batches := by
  rw [List.length_flatMap]
  simp [lineCount, owners]

/-- Batches without offsets lose exactly the rows that are to go. -/
theorem trimFront_owners {toDrop : Nat} {batches : List SinkBatch}
    (plain : ∀ batch ∈ batches, batch.localLineOffsets = []) :
    (trimFront toDrop batches).1.flatMap owners = (batches.flatMap owners).drop toDrop ∧
      ∀ batch ∈ (trimFront toDrop batches).1, batch.localLineOffsets = [] := by
  -- The induction is on the batches, and the front one goes whole, in part, or not at all.
  induction batches generalizing toDrop with
  | nil => simp [trimFront]
  | cons batch rest ih =>
    have others : ∀ batch ∈ rest, batch.localLineOffsets = [] :=
      fun batch member => plain batch (List.mem_cons_of_mem _ member)
    have first := plain batch List.mem_cons_self
    have size : batch.owners.length = batch.lines.length := List.length_map _
    unfold trimFront
    split
    · rename_i nothing
      rw [nothing, List.drop_zero]
      exact ⟨rfl, plain⟩
    · simp only
      split
      · rename_i whole
        have gone : batch.lines.length ≤ toDrop :=
          whole.resolve_right (fun offsets => offsets first)
        obtain ⟨kept, plainToo⟩ := @ih (toDrop - batch.lines.length) others
        refine ⟨?_, plainToo⟩
        have none_ : batch.owners.drop toDrop = [] := List.drop_eq_nil_of_le (by omega)
        rw [kept, List.flatMap_cons, List.drop_append, size, none_, List.nil_append]
      · rename_i part
        simp only [not_or, Nat.not_le] at part
        refine ⟨?_, ?_⟩
        · have short : toDrop - batch.lines.length = 0 := by omega
          rw [List.flatMap_cons, List.flatMap_cons, List.drop_append, size, short, List.drop_zero]
          simp [owners]
        · intro kept member
          obtain rfl | later := List.mem_cons.mp member
          · exact first
          · exact others kept later

end SinkBatch

end Loglib
