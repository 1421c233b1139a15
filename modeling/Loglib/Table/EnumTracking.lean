import Loglib.Table.LogConfiguration
import Loglib.Table.LogValue

/-! What the detector counts: candidates for promotion, and the health of promoted columns. -/

namespace Loglib

/-- Rows a static parse must show before a candidate is promoted. -/
def enumPromotionMinRows : Nat := 4096

/-- Rows a stream must show before a candidate is promoted. -/
def streamPromotionMinRows : Nat := 2

/-- Samples before the tolerance ratio is consulted. -/
def enumHealthMinSamples : Nat := 50

/-- Recognised dictionary entries required for each unrecognised one. -/
def levelDictTolerance : Nat := 4

/-- More than one in a hundred, `ENUM_HEALTH_TOLERANCE_RATIO`. -/
def overTolerance (bad total : Nat) : Bool := total < 100 * bad

/-- More than one in twenty, `ENUM_CARDINALITY_BAIL_RATIO`. -/
def overCardinality (distinct total : Nat) : Bool := total < 20 * distinct

/-- Cumulative health of an enumeration column. -/
structure EnumColumnHealth where
  totalSlots : Nat
  longValueSlots : Nat
  wrongTypeSlots : Nat
deriving DecidableEq, Repr

namespace EnumColumnHealth

/-- No observations. -/
def empty : EnumColumnHealth := ⟨0, 0, 0⟩

/-- Too many long or mistyped slots, once there are enough samples. -/
def shouldDemote (health : EnumColumnHealth) (minSamples : Nat) : Bool :=
  if health.totalSlots < minSamples then false
  else overTolerance (health.longValueSlots + health.wrongTypeSlots) health.totalSlots

end EnumColumnHealth

/-- Running counters of a promotion candidate. The `seen` index holds the same strings as
`values`. -/
structure EnumCandidateTracker where
  values : List Bytes
  valueMaxLen : Nat
  cap : Nat
  rowsObserved : Nat
  presenceCount : Nat
  longValueCount : Nat
  intObservations : Nat
  uintObservations : Nat
  doubleObservations : Nat
  boolObservations : Nat
  killed : Bool
deriving DecidableEq, Repr

namespace EnumCandidateTracker

/-- A tracker that has seen nothing. -/
def fresh (cap valueMaxLen : Nat) : EnumCandidateTracker where
  values := []
  valueMaxLen := valueMaxLen
  cap := cap
  rowsObserved := 0
  presenceCount := 0
  longValueCount := 0
  intObservations := 0
  uintObservations := 0
  doubleObservations := 0
  boolObservations := 0
  killed := false

/-- Number of distinct values. -/
def size (tracker : EnumCandidateTracker) : Nat := tracker.values.length

/-- Give up and forget the values. -/
def kill (tracker : EnumCandidateTracker) : EnumCandidateTracker :=
  { tracker with killed := true, values := [] }

/-- Count one string value. The caller has counted its presence already. -/
def observe (tracker : EnumCandidateTracker) (text : Bytes) : EnumCandidateTracker :=
  if tracker.killed then tracker
  else if tracker.valueMaxLen ≠ 0 ∧ tracker.valueMaxLen < text.length then
    let tracker := { tracker with longValueCount := tracker.longValueCount + 1 }
    if enumHealthMinSamples ≤ tracker.presenceCount ∧
        overTolerance tracker.longValueCount tracker.presenceCount then
      tracker.kill
    else tracker
  else if tracker.values.contains text then tracker
  -- The cap is exceeded: the caller turns the column into strings.
  else if tracker.cap ≤ tracker.size then tracker.kill
  else { tracker with values := tracker.values ++ [text] }

/-- Count one row: the slot it carries, if any, and its bytes, if it peeks as any. -/
def observeSlot (tracker : EnumCandidateTracker) (slot : Option CompactLogValue)
    (peek : CompactLogValue → Option Bytes) : EnumCandidateTracker :=
  let tracker := { tracker with rowsObserved := tracker.rowsObserved + 1 }
  match slot with
  -- A row without the key counts as observed only.
  | none => tracker
  | some slot =>
    let tracker := { tracker with presenceCount := tracker.presenceCount + 1 }
    -- Texts are counted one by one, the other types by their number.
    match peek slot with
    | some text => tracker.observe text
    | none =>
      match slot with
      | .int64 _ => { tracker with intObservations := tracker.intObservations + 1 }
      | .uint64 _ => { tracker with uintObservations := tracker.uintObservations + 1 }
      | .double _ => { tracker with doubleObservations := tracker.doubleObservations + 1 }
      | .bool _ => { tracker with boolObservations := tracker.boolObservations + 1 }
      | _ => tracker

/-- Enough distinct strings, below the cap, over enough rows. -/
def ready (tracker : EnumCandidateTracker) (cap minRows : Nat) : Bool :=
  0 < tracker.size && tracker.size ≤ cap && minRows ≤ tracker.presenceCount

/-- The terminal type of a candidate that showed no string. -/
def routeNoStringBail (tracker : EnumCandidateTracker) : ColumnType :=
  let sawIntegral := 0 < tracker.intObservations ∨ 0 < tracker.uintObservations
  let sawDouble := 0 < tracker.doubleObservations
  let sawBool := 0 < tracker.boolObservations
  if sawBool ∧ (sawIntegral ∨ sawDouble) then .any
  else if sawBool then .boolean
  else if sawIntegral ∧ sawDouble then .number
  else if sawIntegral then .integer
  else if sawDouble then .floating
  else .any

/-- A candidate without strings never becomes a dictionary column. -/
theorem routeNoStringBail_isEnumLike (tracker : EnumCandidateTracker) :
    tracker.routeNoStringBail.isEnumLike = false := by
  unfold routeNoStringBail
  simp only
  split_ifs <;> rfl

end EnumCandidateTracker

end Loglib
