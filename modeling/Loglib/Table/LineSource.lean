import Mathlib
import Loglib.Basic.Bytes

/-! Where the bytes of a line live: memory-mapped files, and streams that evict old lines. -/

namespace Loglib

/-- The bytes `[offset, offset + length)` of an arena, empty when they are not all there. -/
def slice (arena : Bytes) (offset length : Nat) : Bytes :=
  if offset + length ≤ arena.length then (arena.drop offset).take length else []

/-- A slice inside the arena has the asked length. -/
theorem length_slice {arena : Bytes} {offset length : Nat}
    (inside : offset + length ≤ arena.length) :
    (slice arena offset length).length = length := by
  simp [slice, inside]
  omega

/-- A slice never has more than the asked length. -/
theorem length_slice_le (arena : Bytes) (offset length : Nat) :
    (slice arena offset length).length ≤ length := by
  unfold slice
  split
  · exact List.length_take_le _ _
  · simp

/-- A slice inside the arena survives an append. -/
theorem slice_append {arena : Bytes} {offset length : Nat} (more : Bytes)
    (inside : offset + length ≤ arena.length) :
    slice (arena ++ more) offset length = slice arena offset length := by
  have fits : offset + length ≤ (arena ++ more).length := by simp; omega
  simp only [slice, if_pos inside, if_pos fits]
  rw [List.drop_append_of_le_length (by omega), List.take_append_of_le_length (by simp; omega)]

/-- Appended bytes are read back at the old end of the arena. -/
theorem slice_append_self (arena more : Bytes) :
    slice (arena ++ more) arena.length more.length = more := by
  simp [slice]

/-- A memory-mapped file with its line offsets, its decoded strings and its multi-line records. -/
structure LogFile where
  data : Bytes
  /-- `lineOffsets[i]` is where line `i` starts; the constructor pushes the leading zero. -/
  lineOffsets : List Nat
  ownedStrings : Bytes
  /-- Header line to last line of each multi-line record. -/
  multiLineSpans : Nat → Option Nat

namespace LogFile

/-- A freshly opened file. -/
def ofData (data : Bytes) : LogFile where
  data := data
  lineOffsets := [0]
  ownedStrings := []
  multiLineSpans _ := none

/-- Drop one trailing carriage return. -/
def dropCarriageReturn (line : Bytes) : Bytes :=
  if line.getLast? = some (ascii '\r') then line.dropLast else line

/-- The line after the last one that belongs to the record of a header line. -/
def stopLine (file : LogFile) (lineNumber : Nat) : Nat :=
  match file.multiLineSpans lineNumber with
  | some lastLineId =>
    if lastLineId + 1 < file.lineOffsets.length then lastLineId + 1 else lineNumber + 1
  | none => lineNumber + 1

/-- The text of a record. `none` stands for the `std::out_of_range` of an unknown line. -/
def getLine (file : LogFile) (lineNumber : Nat) : Option Bytes :=
  if file.lineOffsets.length ≤ lineNumber + 1 then none
  else
    let startOffset := file.lineOffsets.getD lineNumber 0
    let stopOffset := file.lineOffsets.getD (file.stopLine lineNumber) 0
    if stopOffset ≤ startOffset then some []
    else
      -- The stop offset is one byte past the newline, or `fileSize + 1` without one.
      let length := stopOffset - startOffset - 1
      let length :=
        if file.data.length < startOffset + length then file.data.length - startOffset else length
      some (dropCarriageReturn ((file.data.drop startOffset).take length))

/-- Add the line ends of a batch. -/
def appendLineOffsets (file : LogFile) (offsets : List Nat) : LogFile :=
  { file with lineOffsets := file.lineOffsets ++ offsets }

/-- Remember the last line of a multi-line record whose offsets are registered. -/
def registerMultiLineRecord (file : LogFile) (headerLineId lastLineId : Nat) : LogFile :=
  if lastLineId ≤ headerLineId then file
  else if file.lineOffsets.length ≤ headerLineId + 1 ∨ file.lineOffsets.length ≤ lastLineId + 1 then
    file
  else
    { file with
      multiLineSpans := Function.update file.multiLineSpans headerLineId (some lastLineId) }

/-- Append decoded bytes to the file's arena and return their offset. -/
def appendOwnedStrings (file : LogFile) (text : Bytes) : LogFile × Nat :=
  ({ file with ownedStrings := file.ownedStrings ++ text }, file.ownedStrings.length)

end LogFile

/-- The lines of a stream that are still held, with the decoded bytes of each. -/
structure StreamLineSource where
  lines : List Bytes
  lineOwnedBytes : List Bytes
  firstAvailableLineId : Nat
  nextLineId : Nat
  paired : lineOwnedBytes.length = lines.length
  counted : nextLineId = firstAvailableLineId + lines.length

namespace StreamLineSource

/-- A stream without lines; ids start at one. -/
def empty : StreamLineSource := ⟨[], [], 1, 1, rfl, rfl⟩

/-- The line is held. -/
def lineIsLive (stream : StreamLineSource) (lineId : Nat) : Bool :=
  stream.firstAvailableLineId ≤ lineId && lineId < stream.nextLineId

/-- Position of a held line. -/
def indexFor (stream : StreamLineSource) (lineId : Nat) : Nat :=
  lineId - stream.firstAvailableLineId

/-- The text of a line. `none` stands for the `std::out_of_range` of a line that is not held. -/
def rawLine (stream : StreamLineSource) (lineId : Nat) : Option Bytes :=
  if stream.lineIsLive lineId then stream.lines[stream.indexFor lineId]? else none

/-- The decoded bytes of a held line. -/
def arena (stream : StreamLineSource) (lineId : Nat) : Option Bytes :=
  if stream.lineIsLive lineId then stream.lineOwnedBytes[stream.indexFor lineId]? else none

/-- Bytes of a line's arena, empty when the line is not held. -/
def resolveOwnedBytes (stream : StreamLineSource) (offset length lineId : Nat) : Bytes :=
  match stream.arena lineId with
  | some bytes => slice bytes offset length
  | none => []

/-- Append to a line's arena. `none` stands for the `std::out_of_range` of a line not held. -/
def appendOwnedBytes (stream : StreamLineSource) (lineId : Nat) (text : Bytes) :
    Option (StreamLineSource × Nat) :=
  match stream.arena lineId with
  | none => none
  | some bytes =>
    some
      ({ stream with
          lineOwnedBytes := stream.lineOwnedBytes.set (stream.indexFor lineId) (bytes ++ text)
          paired := by simp [stream.paired] },
        bytes.length)

/-- Drop every line before the boundary, never past the next line id. -/
def evictBefore (stream : StreamLineSource) (firstSurvivingLineId : Nat) : StreamLineSource :=
  if gone : firstSurvivingLineId ≤ stream.firstAvailableLineId then stream
  else
    -- No more is evicted than what has been written.
    let target := min firstSurvivingLineId stream.nextLineId
    let drop := target - stream.firstAvailableLineId
    { lines := stream.lines.drop drop
      lineOwnedBytes := stream.lineOwnedBytes.drop drop
      firstAvailableLineId := target
      nextLineId := stream.nextLineId
      paired := by simp [stream.paired]
      counted := by
        have := stream.counted
        simp only [List.length_drop, target, drop]
        omega }

/-- Hold one more line and return its id. -/
def appendLine (stream : StreamLineSource) (rawLine ownedBytes : Bytes) : StreamLineSource × Nat :=
  ({ lines := stream.lines ++ [rawLine]
     lineOwnedBytes := stream.lineOwnedBytes ++ [ownedBytes]
     firstAvailableLineId := stream.firstAvailableLineId
     nextLineId := stream.nextLineId + 1
     paired := by simp [stream.paired]
     counted := by have := stream.counted; simp; omega },
    stream.nextLineId)

end StreamLineSource

/-- A source of lines. Every source of a table is wired to the table's dictionary registry. -/
inductive LineSource where
  | file (file : LogFile)
  | stream (stream : StreamLineSource)

namespace LineSource

/-- The text of a line, `none` where the source throws. -/
def rawLine : LineSource → Nat → Option Bytes
  | .file backing, lineId => backing.getLine lineId
  | .stream backing, lineId => backing.rawLine lineId

/-- Bytes of the mapping. Streams have none. -/
def resolveMmapBytes : LineSource → Nat → Nat → Bytes
  | .file backing, offset, length => slice backing.data offset length
  | .stream _, _, _ => []

/-- Bytes of the decoded arena: one for a whole file, one a line for a stream. -/
def resolveOwnedBytes : LineSource → Nat → Nat → Nat → Bytes
  | .file backing, offset, length, _ => slice backing.ownedStrings offset length
  | .stream backing, offset, length, lineId => backing.resolveOwnedBytes offset length lineId

/-- Append decoded bytes for a line and return their offset, `none` where the source throws. -/
def appendOwnedBytes : LineSource → Nat → Bytes → Option (LineSource × Nat)
  | .file backing, _, text =>
    let (grown, offset) := backing.appendOwnedStrings text
    some (.file grown, offset)
  | .stream backing, lineId, text =>
    (backing.appendOwnedBytes lineId text).map fun (grown, offset) => (.stream grown, offset)

/-- Only streams evict. -/
def supportsEviction : LineSource → Bool
  | .file _ => false
  | .stream _ => true

/-- Release the lines before a boundary. Files never do. -/
def evictBefore : LineSource → Nat → LineSource
  | .file backing, _ => .file backing
  | .stream backing, firstSurvivingLineId => .stream (backing.evictBefore firstSurvivingLineId)

end LineSource

end Loglib
