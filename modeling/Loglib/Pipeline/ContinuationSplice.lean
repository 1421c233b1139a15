import Loglib.Table.LogLine

/-! Extending the text field of a record by continuation lines, inside a batch and across
batches. -/

namespace Loglib

/-- `ContinuationSpliceOutcome`. -/
inductive ContinuationSpliceOutcome where
  | ok
  | missingTarget
  | nonStringTarget
deriving DecidableEq, Repr

/-- The fields of a record in key order. -/
abbrev LineFields := SortedMap KeyId CompactLogValue

/-- The new slot for text of the given length at an offset. -/
def ownedSlot (offset length : Nat) : CompactLogValue := .ownedString offset (UInt32.ofNat length)

/-- `ExtendContinuationTarget`: the fields and the arena with the bytes, which start with a
separator, behind the target's text. -/
def extendContinuationTarget (values : LineFields) (ownedArena : Bytes) (targetKey : Option KeyId)
    (continuationBytes mmapBytes : Bytes) : ContinuationSpliceOutcome × LineFields × Bytes :=
  match targetKey with
  | none => (.missingTarget, values, ownedArena)
  | some key =>
    if continuationBytes = [] then (.ok, values, ownedArena)
    else
      match values.lookup key with
      | none => (.missingTarget, values, ownedArena)
      | some (.ownedString offset length) =>
        if offset + length.toNat = ownedArena.length then
          -- The text is the tail of the arena and grows in place.
          (.ok, values.put key (ownedSlot offset (length.toNat + continuationBytes.length)),
            ownedArena ++ continuationBytes)
        else
          (.ok, values.put key (ownedSlot ownedArena.length
            (length.toNat + continuationBytes.length)),
            ownedArena ++ (ownedArena.drop offset).take length.toNat ++ continuationBytes)
      | some .monostate =>
        -- A bare key has no content to separate.
        let text := if continuationBytes.head? = some newline then continuationBytes.drop 1
          else continuationBytes
        (.ok, values.put key (ownedSlot ownedArena.length text.length), ownedArena ++ text)
      | some (.mmapSlice offset length) =>
        if mmapBytes = [] ∨ mmapBytes.length < offset + length.toNat then (.nonStringTarget, values,
          ownedArena)
        else
          (.ok, values.put key (ownedSlot ownedArena.length
            (length.toNat + continuationBytes.length)),
            ownedArena ++ (mmapBytes.drop offset).take length.toNat ++ continuationBytes)
      | some _ => (.nonStringTarget, values, ownedArena)

/-- The arena with joined text at its end, and the slot for it. -/
def appendJoined (line : LogLine) (file : LogFile) (key : KeyId) (joined : Bytes) :
    ContinuationSpliceOutcome × LogLine × LogFile :=
  let (file, offset) := file.appendOwnedStrings joined
  (.ok, line.setCompact key (ownedSlot offset joined.length), file)

/-- `SpliceCrossBatchContinuation`: the held line and its file with the leading bytes of the next
batch behind the target's text. -/
def spliceCrossBatchContinuation (heldLine : LogLine) (file : LogFile) (targetKey : Option KeyId)
    (leadingContinuationBytes : Bytes) : ContinuationSpliceOutcome × LogLine × LogFile :=
  match targetKey with
  | none => (.missingTarget, heldLine, file)
  | some key =>
    if leadingContinuationBytes = [] then (.ok, heldLine, file)
    else
      match heldLine.findCompact key with
      | none => (.missingTarget, heldLine, file)
      | some .monostate => appendJoined heldLine file key leadingContinuationBytes
      | some (.ownedString offset length) =>
        let extension := newline :: leadingContinuationBytes
        if offset + length.toNat = file.ownedStrings.length then
          -- The text is the tail of the arena and grows in place.
          (.ok, heldLine.setCompact key (ownedSlot offset (length.toNat + extension.length)),
            (file.appendOwnedStrings extension).1)
        else
          appendJoined heldLine file key (slice file.ownedStrings offset length.toNat ++ extension)
      | some (.mmapSlice offset length) =>
        match (CompactLogValue.mmapSlice offset length).peekStringView
          (some (.file file)) heldLine.lineId with
        | none => (.nonStringTarget, heldLine, file)
        | some current =>
          appendJoined heldLine file key (current ++ newline :: leadingContinuationBytes)
      | some _ => (.nonStringTarget, heldLine, file)

end Loglib
