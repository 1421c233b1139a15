import Loglib.Pipeline.BatchCoalescer
import Loglib.Pipeline.StaticPipeline

/-! What a coalescer has reported of the key index, and when a name can no longer be reported. -/

namespace Loglib

/-- All keys of a line are among so many first ones. -/
def LogLine.Registered (line : LogLine) (count : Nat) : Prop :=
  ∀ entry ∈ line.values.entries, entry.1 < count

/-- The keys of a line are compared by evaluation. -/
instance (line : LogLine) (count : Nat) : Decidable (line.Registered count) :=
  inferInstanceAs (Decidable (∀ entry ∈ line.values.entries, entry.1 < count))

/-- The keys reported by some batches. -/
def reportedKeys (batches : List SinkBatch) : List Bytes := batches.flatMap (·.newKeys)

/-- The lines of each batch only have keys that were there before the run or have been
reported by then. -/
def Timely (baseline : Nat) (sink : List SinkBatch) : Prop :=
  ∀ front batch back, sink = front ++ batch :: back →
    ∀ line ∈ batch.lines, line.Registered (baseline + (reportedKeys (front ++ [batch])).length)

/-- One batch more is on time if its own lines are. -/
theorem Timely.append {baseline : Nat} {sink : List SinkBatch} {batch : SinkBatch}
    (timely : Timely baseline sink)
    (last : ∀ line ∈ batch.lines,
    line.Registered (baseline + (reportedKeys (sink ++ [batch])).length)) :
    Timely baseline (sink ++ [batch]) := by
  intro front own back cut
  -- The cut is behind the new batch, or in front of it.
  rcases List.eq_nil_or_concat back with rfl | ⟨middle, other, rfl⟩
  · obtain ⟨rfl, same⟩ := List.append_inj' cut rfl
    obtain rfl : batch = own := by simpa using same
    exact last
  · have parts : sink ++ [batch] = (front ++ own :: middle) ++ [other] := by simpa using cut
    obtain ⟨earlier, -⟩ := List.append_inj' parts rfl
    exact timely front own middle earlier

/-- The sink knows all keys that were registered from the baseline on, each line's keys in time. -/
structure ReportsKeys (baseline : Nat) (keys : KeyIndex) (sink : List SinkBatch) : Prop where
  all : reportedKeys sink = keys.namesFrom baseline
  inTime : ∀ front batch back, sink = front ++ batch :: back → ∀ line ∈ batch.lines,
    ∀ entry ∈ line.values.entries, baseline ≤ entry.1 →
      ∃ name, keys.keyOf entry.1 = some name ∧ name ∈ reportedKeys (front ++ [batch])

namespace BatchCoalescer

/-- The coalescer has reported the keys up to its cursor, and what is pending has
registered keys. -/
structure Reports (baseline : Nat) (keys : KeyIndex) (coalescer : BatchCoalescer) : Prop where
  bare : coalescer.pending.newKeys = []
  above : baseline ≤ coalescer.prevKeyCount
  below : coalescer.prevKeyCount ≤ keys.size
  reported : reportedKeys coalescer.sink =
    (keys.reverse.names.take coalescer.prevKeyCount).drop baseline
  timely : Timely baseline coalescer.sink
  waiting : ∀ line ∈ coalescer.pending.lines, line.Registered keys.size

/-- Registering more keys takes nothing back. -/
theorem Reports.grow {baseline : Nat} {keys later : KeyIndex} {coalescer : BatchCoalescer}
    (reports : coalescer.Reports baseline keys) (grows : keys.Grows later) :
    coalescer.Reports baseline later := by
  have larger := Interner.Grows.size_le grows
  refine ⟨reports.bare, reports.above, reports.below.trans larger, ?_, reports.timely, ?_⟩
  · obtain ⟨more, same⟩ := grows
    rw [reports.reported, ← same, List.take_append_of_le_length reports.below]
  · exact fun line member entry inLine => (reports.waiting line member entry inLine).trans_le larger

/-- Other content may change as long as the lines have registered keys. -/
theorem Reports.withPending {baseline : Nat} {keys : KeyIndex} {coalescer : BatchCoalescer}
    (reports : coalescer.Reports baseline keys) {pending : SinkBatch} {primed : Bool}
    (bare : pending.newKeys = coalescer.pending.newKeys)
    (lines : ∀ line ∈ pending.lines, line.Registered keys.size) :
    { coalescer with pending, primed }.Reports baseline keys :=
  ⟨bare.trans reports.bare, reports.above, reports.below, reports.reported, reports.timely, lines⟩

/-- A batch that is sent with the keys drained into it is complete and on time. -/
theorem Reports.send {baseline : Nat} {keys : KeyIndex} {coalescer : BatchCoalescer}
    (reports : coalescer.Reports baseline keys) (out : SinkBatch) (bare : out.newKeys = [])
    (lines : ∀ line ∈ out.lines, line.Registered keys.size) :
    ((coalescer.drained keys).onBatch (coalescer.drainNewKeysInto keys out)).Reports baseline keys ∧
      ((coalescer.drained keys).onBatch (coalescer.drainNewKeysInto keys out)).prevKeyCount =
        keys.size := by
  -- The cursor moves to the end of the keys.
  have cursor : max coalescer.prevKeyCount keys.size = keys.size := max_eq_right reports.below
  -- What has been reported and what is drained now are all keys from the baseline on.
  have parts : reportedKeys (coalescer.sink ++ [coalescer.drainNewKeysInto keys out]) =
      keys.namesFrom baseline := by
    have split := List.take_append_drop coalescer.prevKeyCount keys.reverse.names
    have cut := congrArg (List.drop baseline) split
    rw [List.drop_append_of_le_length (by
      rw [List.length_take]
      exact le_min reports.above (reports.above.trans reports.below))] at cut
    rw [reportedKeys, List.flatMap_append, ← reportedKeys, reports.reported]
    simpa [reportedKeys, drainNewKeysInto, bare, KeyIndex.namesFrom] using cut
  refine ⟨⟨reports.bare, ?_, ?_, ?_, ?_, reports.waiting⟩, cursor⟩
  · exact reports.above.trans (le_max_left _ _)
  · exact cursor.le
  · show reportedKeys (coalescer.sink ++ [_]) = _
    rw [parts]
    simp only [onBatch, drained, cursor]
    rw [KeyIndex.size, Interner.size, List.take_length, KeyIndex.namesFrom]
  · -- The lines of this batch have only keys that it reports or that were reported before.
    refine reports.timely.append fun line member => ?_
    have count : baseline + (keys.namesFrom baseline).length = keys.size := by
      rw [KeyIndex.namesFrom, List.length_drop]
      exact Nat.add_sub_cancel' (reports.above.trans reports.below)
    rw [parts, count]
    exact lines line member

/-- Shipping the pending batch reports every key there is. -/
theorem Reports.ship {baseline : Nat} {keys : KeyIndex} {coalescer : BatchCoalescer}
    (reports : coalescer.Reports baseline keys) : (coalescer.ship keys).Reports baseline keys := by
  obtain ⟨sent, -⟩ := reports.send _ reports.bare reports.waiting
  exact sent.withPending sent.bare.symm fun line member => nomatch member

/-- A flush reports every key there is, or nothing. -/
theorem Reports.tryFlush {baseline : Nat} {now : FlushMoment} {coalescer : BatchCoalescer}
    (reports : coalescer.Reports baseline now.keysDrained) :
    (coalescer.tryFlush now).Reports baseline now.keysDrained := by
  unfold BatchCoalescer.tryFlush
  simp only
  -- Nothing to flush, everything sent, or not yet due.
  split
  · exact reports
  · split
    · exact reports.ship
    · exact reports

/-- Priming keeps the report. -/
theorem Reports.prime {baseline : Nat} {keys : KeyIndex} {coalescer : BatchCoalescer}
    (reports : coalescer.Reports baseline keys) (first : Nat) :
    (coalescer.prime first).Reports baseline keys := by
  unfold BatchCoalescer.prime
  split
  · exact reports
  · exact reports.withPending rfl reports.waiting

/-- The keys of lines that are on time have been reported by name. -/
theorem Reports.reportsKeys {baseline : Nat} {keys : KeyIndex} {coalescer : BatchCoalescer}
    (reports : coalescer.Reports baseline keys) (complete : coalescer.prevKeyCount = keys.size) :
    ReportsKeys baseline keys coalescer.sink := by
  have all : reportedKeys coalescer.sink = keys.namesFrom baseline := by
    rw [reports.reported, complete, KeyIndex.size, Interner.size, List.take_length,
      KeyIndex.namesFrom]
  refine ⟨all, fun front batch back cut line member entry inLine later => ?_⟩
  have inTime : entry.1 < baseline + (reportedKeys (front ++ [batch])).length :=
    reports.timely front batch back cut line member entry inLine
  -- The keys reported so far are the first ones from the baseline on.
  have begins : reportedKeys (front ++ [batch]) <+: keys.namesFrom baseline := by
    rw [← all, cut, reportedKeys, reportedKeys]
    exact ⟨back.flatMap (·.newKeys), by simp⟩
  have inside : entry.1 - baseline < (reportedKeys (front ++ [batch])).length :=
    Nat.sub_lt_left_of_lt_add later inTime
  have name := begins.getElem inside
  refine ⟨(reportedKeys (front ++ [batch]))[entry.1 - baseline], ?_, List.getElem_mem inside⟩
  rw [KeyIndex.keyOf, Interner.get, name]
  have position : baseline + (entry.1 - baseline) = entry.1 := by omega
  simp only [KeyIndex.namesFrom, List.getElem_drop, position]
  exact List.getElem?_eq_getElem _

/-- The last batch completes the report. -/
theorem Reports.finish {baseline : Nat} {now : FlushMoment} {coalescer : BatchCoalescer}
    (reports : coalescer.Reports baseline now.keysDrained) (fallbackLineNumber : Nat) :
    ReportsKeys baseline now.keysDrained (coalescer.finish now fallbackLineNumber).sink := by
  unfold BatchCoalescer.finish
  simp only
  split
  · -- What is left is sent as a batch; when nothing is left, an empty one reports the keys.
    obtain ⟨sent, complete⟩ :=
      (reports.prime fallbackLineNumber).send _ (reports.prime fallbackLineNumber).bare
      (reports.prime fallbackLineNumber).waiting
    exact sent.reportsKeys complete
  · obtain ⟨sent, complete⟩ :=
      reports.send { SinkBatch.empty with firstLineNumber := fallbackLineNumber }
      rfl (fun line member => nomatch member)
    exact sent.reportsKeys complete

/-- The coalescer has passed names that it has not reported. -/
structure Behind (baseline : Nat) (keys : KeyIndex) (coalescer : BatchCoalescer) : Prop where
  bare : coalescer.pending.newKeys = []
  below : coalescer.prevKeyCount ≤ keys.size
  fewer : baseline + (reportedKeys coalescer.sink).length < coalescer.prevKeyCount

/-- Registering more keys does not make up for names that were passed. -/
theorem Behind.grow {baseline : Nat} {keys later : KeyIndex} {coalescer : BatchCoalescer}
    (behind : coalescer.Behind baseline keys) (grows : keys.Grows later) :
    coalescer.Behind baseline later :=
  ⟨behind.bare, behind.below.trans (Interner.Grows.size_le grows), behind.fewer⟩

/-- What is sent does not make up for names that were passed. -/
theorem Behind.send {baseline : Nat} {keys : KeyIndex} {coalescer : BatchCoalescer}
    (behind : coalescer.Behind baseline keys) {out : SinkBatch} (bare : out.newKeys = []) :
    ((coalescer.drained keys).onBatch (coalescer.drainNewKeysInto keys out)).Behind
      baseline keys := by
  refine ⟨behind.bare, max_le behind.below le_rfl, ?_⟩
  -- What is sent reports every key up to now and none after.
  have fewer := behind.fewer
  simp only [onBatch, drained, drainNewKeysInto, reportedKeys, List.flatMap_append,
    List.flatMap_singleton, bare,
    List.nil_append, List.length_append, KeyIndex.namesFrom, List.length_drop] at fewer ⊢
  simp only [KeyIndex.size, Interner.size]
  omega

/-- Other content does not make up for names that were passed. -/
theorem Behind.withPending {baseline : Nat} {keys : KeyIndex} {coalescer : BatchCoalescer}
    (behind : coalescer.Behind baseline keys) {pending : SinkBatch} {primed : Bool}
    (bare : pending.newKeys = coalescer.pending.newKeys) :
    { coalescer with pending, primed }.Behind baseline keys :=
  ⟨bare.trans behind.bare, behind.below, behind.fewer⟩

/-- A flush does not make up for names that were passed. -/
theorem Behind.tryFlush {baseline : Nat} {now : FlushMoment} {coalescer : BatchCoalescer}
    (behind : coalescer.Behind baseline now.keysDrained) :
    (coalescer.tryFlush now).Behind baseline now.keysDrained := by
  unfold BatchCoalescer.tryFlush
  simp only
  -- Nothing to flush, everything sent, or not yet due.
  split
  · exact behind
  · split
    · exact (behind.send behind.bare).withPending behind.bare.symm
    · exact behind

/-- Priming does not make up for names that were passed. -/
theorem Behind.prime {baseline : Nat} {keys : KeyIndex} {coalescer : BatchCoalescer}
    (behind : coalescer.Behind baseline keys) (first : Nat) :
    (coalescer.prime first).Behind baseline keys := by
  unfold BatchCoalescer.prime
  split
  · exact behind
  · exact behind.withPending rfl

/-- With a name missing the keys are not all reported. -/
theorem Behind.not_reportsKeys {baseline : Nat} {keys : KeyIndex} {coalescer : BatchCoalescer}
    (behind : coalescer.Behind baseline keys) : ¬ReportsKeys baseline keys coalescer.sink := by
  intro reports
  have count := congrArg List.length reports.all
  have fewer := behind.fewer.trans_le behind.below
  simp only [KeyIndex.namesFrom, List.length_drop] at count
  simp only [KeyIndex.size, Interner.size] at fewer
  omega

/-- In the end a name that was passed is missing. -/
theorem Behind.finish {baseline : Nat} {now : FlushMoment} {coalescer : BatchCoalescer}
    (behind : coalescer.Behind baseline now.keysDrained) (fallbackLineNumber : Nat) :
    ¬ReportsKeys baseline now.keysDrained (coalescer.finish now fallbackLineNumber).sink := by
  unfold BatchCoalescer.finish
  simp only
  split
  · have primed := behind.prime fallbackLineNumber
    exact (primed.send primed.bare).not_reportsKeys
  · exact (behind.send rfl).not_reportsKeys

end BatchCoalescer

namespace LogLine

/-- More keys, same line. -/
theorem Registered.grow {line : LogLine} {count more : Nat} (registered : line.Registered count)
    (larger : count ≤ more) : line.Registered more :=
  fun entry member => (registered entry member).trans_le larger

/-- Moving the text of a line changes no key. -/
theorem Registered.rebase {line : LogLine} {count : Nat} (registered : line.Registered count)
    (delta : Nat) :
    (line.rebaseOwnedStringOffsets delta).Registered count := by
  intro entry member
  obtain ⟨before, inLine, rfl⟩ := List.mem_map.mp member
  exact registered before inLine

/-- Replacing a slot adds no key. -/
theorem Registered.setCompact {line : LogLine} {count : Nat} (registered : line.Registered count)
    {key : KeyId}
    {old : CompactLogValue} (found : line.findCompact key = some old) (slot : CompactLogValue) :
    (line.setCompact key slot).Registered count := by
  intro entry member
  obtain ⟨before, inLine, same⟩ := SortedMap.mem_put_of_lookup found member
  exact same ▸ registered before inLine

end LogLine

end Loglib
