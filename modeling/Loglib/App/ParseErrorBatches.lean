import Loglib.Basic.Bytes
import Loglib.Basic.LastItems
import Loglib.Basic.Utf16Text

/-! Batches of parse errors: the last errors of a history, and the eviction that keeps
just these. -/

namespace Loglib

/-- `SessionParseErrorBatch`: errors under a title. -/
structure SessionParseErrorBatch where
  title : Utf16Text
  errors : List Bytes
deriving DecidableEq

namespace SessionParseErrorBatch

/-- The errors of batches. -/
def errorCount (batches : List SessionParseErrorBatch) : Nat := (batches.map (·.errors.length)).sum

/-- The errors of batches, each with the title of its batch. -/
def titledErrors (batches : List SessionParseErrorBatch) : List (Utf16Text × Bytes) :=
  batches.flatMap fun batch => batch.errors.map (batch.title, ·)

/-- No batch is empty. -/
def NoneEmpty (batches : List SessionParseErrorBatch) : Prop := ∀ batch ∈ batches, batch.errors ≠ []

/-- Batches without their first errors, and without the batches that are left empty. -/
def dropErrors (count : Nat) : List SessionParseErrorBatch → List SessionParseErrorBatch
  | [] => []
  | head :: rest =>
    if head.errors.length ≤ count then dropErrors (count - head.errors.length) rest
    else { head with errors := head.errors.drop count } :: rest

section Eviction

variable (cap : Nat)

/-- What is kept of a history: its last errors, up to the cap. -/
def kept (history : List SessionParseErrorBatch) : List SessionParseErrorBatch :=
  dropErrors (errorCount history - cap) history

/-- The loop that evicts from the head until the total is back under the cap, with the dropped
errors counted. -/
def evict (totalErrors droppedCount : Nat) :
    List SessionParseErrorBatch → List SessionParseErrorBatch × Nat
  | [] => ([], droppedCount)
  | head :: rest =>
    if totalErrors ≤ cap then (head :: rest, droppedCount)
    else
      let available := head.errors.length
      let excess := totalErrors - cap
      if available ≤ excess then evict (totalErrors - available) (droppedCount + available) rest
      -- A head that loses only a part brings the total to the cap.
      else ({ head with errors := head.errors.drop excess } :: rest, droppedCount + excess)

/-- The eviction with its total, and the leading batches without errors dropped. -/
def trimToCap (droppedCount : Nat) (batches : List SessionParseErrorBatch) :
    List SessionParseErrorBatch × Nat :=
  let (left, droppedCount) := evict cap (errorCount batches) droppedCount batches
  (left.dropWhile (·.errors.isEmpty), droppedCount)

end Eviction

section Dropping

variable {cap : Nat} {batches front back : List SessionParseErrorBatch}
    {batch : SessionParseErrorBatch}

/-- The count of a batch in front of others. -/
theorem errorCount_cons (head : SessionParseErrorBatch) (rest : List SessionParseErrorBatch) :
    errorCount (head :: rest) = head.errors.length + errorCount rest := by
  rw [errorCount, List.map_cons, List.sum_cons, errorCount]

/-- The counts of two parts. -/
theorem errorCount_append (front back : List SessionParseErrorBatch) :
    errorCount (front ++ back) = errorCount front + errorCount back := by
  rw [errorCount, List.map_append, List.sum_append, errorCount, errorCount]

/-- The count of a single batch. -/
theorem errorCount_single (batch : SessionParseErrorBatch) :
    errorCount [batch] = batch.errors.length := by
  rw [errorCount_cons]
  rfl

/-- The batches behind the first one are not empty either. -/
theorem noneEmpty_rest {head : SessionParseErrorBatch} {rest : List SessionParseErrorBatch}
    (noneEmpty : NoneEmpty (head :: rest)) :
    NoneEmpty rest := fun batch listed => noneEmpty batch (List.mem_cons_of_mem _ listed)

/-- Batches without errors are none at all. -/
theorem eq_nil_of_errorCount (noneEmpty : NoneEmpty batches) (none_ : errorCount batches = 0) :
    batches = [] := by
  cases batches with
  | nil => rfl
  | cons head rest =>
    have positive := List.length_pos_iff.mpr (noneEmpty head List.mem_cons_self)
    rw [errorCount_cons] at none_
    omega

/-- There is a title for each error. -/
theorem length_titledErrors (batches : List SessionParseErrorBatch) :
    (titledErrors batches).length = errorCount batches := by
  induction batches with
  | nil => rfl
  | cons head rest ih =>
    rw [titledErrors, List.flatMap_cons, List.length_append, List.length_map, errorCount_cons, ← ih,
      titledErrors]

/-- Dropping from the front drops from the titled errors. -/
theorem titledErrors_dropErrors (count : Nat) (batches : List SessionParseErrorBatch) :
    titledErrors (dropErrors count batches) = (titledErrors batches).drop count := by
  induction batches generalizing count with
  | nil => rw [dropErrors, titledErrors, List.flatMap_nil, List.drop_nil]
  | cons head rest ih =>
    have whole : titledErrors (head :: rest) = head.errors.map (head.title, ·) ++
        titledErrors rest := List.flatMap_cons
    rw [dropErrors, whole, List.drop_append, List.length_map]
    split
    · -- A batch that goes as a whole takes all its titled errors along.
      rename_i all
      have gone : (head.errors.map (head.title, ·)).drop count = [] :=
        List.drop_of_length_le (by rwa [List.length_map])
      rw [ih, gone, List.nil_append]
    · -- Nothing is left to drop behind a batch that keeps some of its errors.
      rename_i some_
      have none_ : count - head.errors.length = 0 := by omega
      rw [titledErrors, List.flatMap_cons, none_, List.drop_zero, List.map_drop, ← titledErrors]

/-- Dropping leaves no batch empty. -/
theorem noneEmpty_dropErrors (noneEmpty : NoneEmpty batches) (count : Nat) :
    NoneEmpty (dropErrors count batches) := by
  induction batches generalizing count with
  | nil => exact noneEmpty
  | cons head rest ih =>
    have restNonempty := noneEmpty_rest noneEmpty
    rw [dropErrors]
    split
    · exact ih restNonempty _
    · -- The batch that loses a part keeps another.
      rename_i some_
      intro batch listed
      rcases List.mem_cons.mp listed with rfl | inRest
      · exact List.length_pos_iff.mp (by rw [List.length_drop]; omega)
      · exact restNonempty batch inRest

/-- What dropping leaves. -/
theorem errorCount_dropErrors (count : Nat) (batches : List SessionParseErrorBatch) :
    errorCount (dropErrors count batches) = errorCount batches - count := by
  rw [← length_titledErrors, titledErrors_dropErrors, List.length_drop, length_titledErrors]

/-- What is kept of a history counts up to the cap. -/
theorem errorCount_kept (cap : Nat) (history : List SessionParseErrorBatch) :
    errorCount (kept cap history) = min cap (errorCount history) := by
  rw [kept, errorCount_dropErrors]
  omega

/-- Nothing to drop. -/
theorem dropErrors_zero (noneEmpty : NoneEmpty batches) : dropErrors 0 batches = batches := by
  cases batches with
  | nil => rfl
  | cons head rest =>
    have positive := List.length_pos_iff.mpr (noneEmpty head List.mem_cons_self)
    rw [dropErrors, if_neg (by omega), List.drop_zero]

/-- Dropping twice. -/
theorem dropErrors_dropErrors (first second : Nat) (noneEmpty : NoneEmpty batches) :
    dropErrors second (dropErrors first batches) = dropErrors (first + second) batches := by
  induction batches generalizing first with
  | nil => rfl
  | cons head rest ih =>
    have restNonempty := noneEmpty_rest noneEmpty
    by_cases all : head.errors.length ≤ first
    · have more : head.errors.length ≤ first + second := by omega
      rw [dropErrors, if_pos all, ih _ restNonempty, dropErrors, if_pos more]
      congr 1
      omega
    · rw [dropErrors, if_neg all, dropErrors, List.length_drop]
      -- What is left of the head goes as a whole exactly if the head does.
      by_cases more : head.errors.length ≤ first + second
      · rw [if_pos (by omega), dropErrors, if_pos more]
        congr 1
        omega
      · rw [if_neg (by omega), dropErrors, if_neg more, List.drop_drop]

/-- Dropping that stays in the first part. -/
theorem dropErrors_append {count : Nat} (noneEmpty : NoneEmpty back)
    (inside : count ≤ errorCount front) :
    dropErrors count (front ++ back) = dropErrors count front ++ back := by
  induction front generalizing count with
  | nil =>
    have none_ : count = 0 := Nat.le_zero.mp inside
    rw [none_, List.nil_append, dropErrors_zero noneEmpty]
    rfl
  | cons head rest ih =>
    rw [errorCount_cons] at inside
    rw [List.cons_append, dropErrors, dropErrors]
    split
    · -- The count stays inside what is left of the first part.
      exact ih (by omega)
    · rfl

/-- Dropping that passes the first part. -/
theorem dropErrors_append_of_le {count : Nat} (all : errorCount front ≤ count) :
    dropErrors count (front ++ back) = dropErrors (count - errorCount front) back := by
  -- Batches in front are dropped whole while the count allows.
  induction front generalizing count with
  | nil => rfl
  | cons head rest ih =>
    rw [errorCount_cons] at all ⊢
    rw [List.cons_append, dropErrors, if_pos (by omega), ih (by omega)]
    congr 1
    omega

/-- A single batch that keeps some of its errors. -/
theorem dropErrors_single {count : Nat} (fewer : count < batch.errors.length) :
    dropErrors count [batch] = [{ batch with errors := batch.errors.drop count }] := by
  rw [dropErrors, if_neg (by omega)]

/-- The eviction drops the errors above the cap. -/
theorem evict_eq (noneEmpty : NoneEmpty batches) (droppedCount : Nat) {totalErrors : Nat}
    (counted : totalErrors = errorCount batches) :
    evict cap totalErrors droppedCount batches =
      (dropErrors (totalErrors - cap) batches, droppedCount + (totalErrors - cap)) := by
  induction batches generalizing totalErrors droppedCount with
  | nil =>
    have none_ : totalErrors = 0 := counted
    rw [none_, Nat.zero_sub]
    rfl
  | cons head rest ih =>
    have restNonempty := noneEmpty_rest noneEmpty
    rw [errorCount_cons] at counted
    rw [evict]
    split
    · -- Under the cap nothing goes.
      rename_i under
      rw [Nat.sub_eq_zero_of_le under, dropErrors_zero noneEmpty, Nat.add_zero]
    · dsimp only
      rw [dropErrors]
      split
      · -- The total and the excess both lose the errors of the head.
        rename_i all
        have after : totalErrors - head.errors.length - cap = totalErrors - cap -
            head.errors.length := by omega
        have dropped : droppedCount + head.errors.length +
          (totalErrors - cap - head.errors.length) =
            droppedCount + (totalErrors - cap) := by omega
        rw [ih restNonempty _ (by omega), after, dropped]
      · rfl

/-- No leading batch is empty after the eviction. -/
theorem trimToCap_eq (noneEmpty : NoneEmpty batches) (droppedCount : Nat) :
    trimToCap cap droppedCount batches = (kept cap batches,
      droppedCount + (errorCount batches - cap)) := by
  rw [trimToCap, evict_eq noneEmpty droppedCount rfl, kept]
  have left := noneEmpty_dropErrors noneEmpty (errorCount batches - cap)
  refine Prod.ext ?_ rfl
  -- The first batch that is left has errors, so no leading batch is dropped.
  cases found : dropErrors (errorCount batches - cap) batches with
  | nil => rfl
  | cons head rest =>
    have some_ := left head (found ▸ List.mem_cons_self)
    show (head :: rest).dropWhile (·.errors.isEmpty) = head :: rest
    rw [List.dropWhile_cons, if_neg (by rwa [List.isEmpty_iff])]

/-- What a history keeps of a batch that comes to it is what the kept errors keep of the part of the
batch that fits. -/
theorem kept_append (batch : SessionParseErrorBatch) (positiveCap : 0 < cap)
    {history : List SessionParseErrorBatch} (noneEmpty : NoneEmpty history)
    (some_ : batch.errors ≠ []) :
    kept cap (kept cap history ++
      [{ batch with errors := batch.errors.drop (batch.errors.length - cap) }]) =
      kept cap (history ++ [batch]) := by
  have positive := List.length_pos_iff.mpr some_
  have count := errorCount_kept cap history
  have newNonempty : NoneEmpty [batch] := fun other listed => List.mem_singleton.mp listed ▸ some_
  unfold kept at count ⊢
  rw [errorCount_append, errorCount_append, errorCount_single, errorCount_single,
    List.length_drop, count]
  by_cases fits : batch.errors.length ≤ cap
  · -- All of the batch fits, and makes room among the older errors.
    have whole : batch.errors.length - cap = 0 := by omega
    simp only [whole, List.drop_zero, Nat.sub_zero]
    rw [dropErrors_append newNonempty (by rw [count]; omega),
      dropErrors_append newNonempty (by omega),
      dropErrors_dropErrors _ _ noneEmpty]
    congr 2
    omega
  · -- The batch fills the cap by itself.
    have full : batch.errors.length - (batch.errors.length - cap) = cap := by omega
    have before : errorCount history + batch.errors.length - cap - errorCount history =
        batch.errors.length - cap := by omega
    have none_ : min cap (errorCount history) + cap - cap - min cap (errorCount history) = 0 := by
      omega
    rw [full, dropErrors_append_of_le (by rw [count]; omega), dropErrors_append_of_le (by omega),
      count, before, none_,
      dropErrors_single (by rw [List.length_drop]; omega), dropErrors_single (by omega),
      List.drop_zero]

end Dropping

end SessionParseErrorBatch

end Loglib
