import Loglib.Basic.SeparatedLines
import Loglib.Tailing.Disk

/-! The producer that tails a file: pre-fill, rotation checks, reads, and the buffer that its
consumer drains. -/

namespace Loglib

/-- The options that shape reads. The watcher and the poll interval only decide when a
poll happens. -/
structure TailOptions where
  /-- At least one line is retained, whatever was asked for. -/
  retentionLines : Nat
  readChunkBytes : Nat
  prefillChunkBytes : Nat
  prefillMaxScanBytes : Nat

/-- The fields of `TailingBytesProducerImpl` that reads depend on. A handle is the
identity of its file. -/
structure TailingBytesProducer where
  handle : Option Nat
  readOffset : Nat
  waiting : Bool
  partialLine : Bytes
  readyBuffer : Bytes
  readyConsumed : Nat
  rotationCount : Nat
deriving DecidableEq

/-- What other programs do before each system call of the pre-fill, and which of its reads fail. -/
structure PrefillGaps where
  beforeSize : List DiskAction
  /-- Before the chunk at an offset is read. -/
  beforeChunk : Nat → List DiskAction
  chunkFails : Nat → Bool
  beforeBody : List DiskAction
  bodyFails : Bool

/-- What other programs do before each system call of a poll, and which of them fail. -/
structure PollGaps where
  beforePathCheck : List DiskAction
  beforeOpen : List DiskAction
  openFails : Bool
  beforeShrinkCheck : List DiskAction
  beforeSize : List DiskAction
  beforeRead : List DiskAction
  readFails : Bool

namespace Disk

/-- `OpenForTail`. -/
def openForTail (disk : Disk) (fails : Bool) : Option Nat := if fails then none else disk.fromPath

/-- `SizeOfOpenHandle`. -/
def sizeOfOpenHandle (disk : Disk) (handle : Option Nat) : Option Nat :=
  (handle.bind disk.content).map (·.length)

/-- `ReadAtOffset`: as many bytes as there are, and none after an error. -/
def readAtOffset (disk : Disk) (handle : Option Nat) (size offset : Nat) (fails : Bool) : Bytes :=
  if fails then [] else (((handle.bind disk.content).getD []).drop offset).take size

end Disk

/-- One chunk of the backwards scan, last byte first: the newlines seen with it, and how many of its
bytes are in front of the line start that was looked for. -/
def scanChunk (targetNewlines : Nat) : Bytes → Nat → Nat × Option Nat
  | [], newlinesSeen => (newlinesSeen, none)
  | byte :: before, newlinesSeen =>
    if byte = newline then
      if newlinesSeen + 1 = targetNewlines then (newlinesSeen + 1, some (before.length + 1))
      else scanChunk targetNewlines before (newlinesSeen + 1)
    else scanChunk targetNewlines before newlinesSeen

/-- The backwards scan from an offset on: the start of the retained lines, none if it gives up. Each
turn moves the offset, so the offset is enough fuel. -/
def scanBackwards (options : TailOptions) (gaps : PrefillGaps) (handle : Option Nat) :
    (fuel pos newlinesSeen scannedBytes : Nat) → Disk → Option Nat × Disk
  | 0, _, _, _, disk => (some 0, disk)
  | fuel + 1, pos, newlinesSeen, scannedBytes, disk =>
    if pos = 0 then (some 0, disk)
    else
      let chunkSize := min pos options.prefillChunkBytes
      let pos := pos - chunkSize
      let disk := disk.acts (gaps.beforeChunk pos)
      let chunk := disk.readAtOffset handle chunkSize pos (gaps.chunkFails pos)
      -- A read that fails ends the scan, and so does the end of its budget.
      if chunk = [] then (none, disk)
      else
        let scannedBytes := scannedBytes + chunk.length
        match scanChunk (max options.retentionLines 1 + 1) chunk.reverse newlinesSeen with
        | (_, some inside) => (some (pos + inside), disk)
        | (newlinesSeen, none) =>
          if options.prefillMaxScanBytes ≠ 0 ∧
            options.prefillMaxScanBytes ≤ scannedBytes then (none, disk)
          else scanBackwards options gaps handle fuel pos newlinesSeen scannedBytes disk

namespace TailingBytesProducer

/-- The producer right after its file was opened. -/
def start (handle : Nat) : TailingBytesProducer := ⟨some handle, 0, false, [], [], 0, 0⟩

/-- `AppendBytesAndSplitLocked`: everything through the last newline is ready. -/
def appendBytesAndSplit (producer : TailingBytesProducer) (data : Bytes) : TailingBytesProducer :=
  let (lines, rest) := splitLines newline (producer.partialLine ++ data)
  { producer with
    readyBuffer := producer.readyBuffer ++ joinLines newline lines
    partialLine := rest }

/-- `Prefill`. -/
def prefill (options : TailOptions) (gaps : PrefillGaps) (disk : Disk)
    (producer : TailingBytesProducer) :
    Disk × TailingBytesProducer :=
  let disk := disk.acts gaps.beforeSize
  match disk.sizeOfOpenHandle producer.handle with
  -- A file that is empty, or whose size cannot be read, is followed from its start.
  | none | some 0 => (disk, { producer with readOffset := 0 })
  | some fileSize =>
    match scanBackwards options gaps producer.handle fileSize fileSize 0 0 disk with
    -- Nothing found: the tail starts at the end of the file.
    | (none, disk) => (disk, { producer with readOffset := fileSize })
    | (some lineStart, disk) =>
      if lineStart < fileSize then
        let disk := disk.acts gaps.beforeBody
        let body := disk.readAtOffset producer.handle (fileSize - lineStart) lineStart
          gaps.bodyFails
        (disk, { producer.appendBytesAndSplit body with readOffset := fileSize })
      else (disk, { producer with readOffset := fileSize })

/-- The pre-fill skips to the end of the file: its scan gives up, or its read fails. -/
def prefillSkips (options : TailOptions) (gaps : PrefillGaps) (disk : Disk)
    (producer : TailingBytesProducer) : Bool :=
  let disk := disk.acts gaps.beforeSize
  match disk.sizeOfOpenHandle producer.handle with
  | none | some 0 => false
  | some fileSize =>
    (scanBackwards options gaps producer.handle fileSize fileSize 0 0 disk).1.elim true fun _ =>
      gaps.bodyFails

/-- The file that was just opened is read from its start. -/
def reopen (producer : TailingBytesProducer) (opened : Option Nat) : TailingBytesProducer :=
  { producer with
    handle := opened
    readOffset := 0
    waiting := false
    partialLine := []
    rotationCount := producer.rotationCount + 1 }

/-- `DetectAndRecoverRotation` on what its system calls return, and whether a branch matched. -/
def detectAndRecoverRotation (producer : TailingBytesProducer)
    (pathId opened handleSize : Option Nat) :
    TailingBytesProducer × Bool :=
  if pathId ≠ none ∧ producer.handle ≠ none ∧ pathId ≠ producer.handle then
    -- Branch (i): another file is under the path.
    (producer.reopen opened, true)
  else if pathId = none then
    -- Branch (ii): the path is missing. The old handle stays open.
    ({ producer with
        waiting := true
        partialLine := if producer.waiting then producer.partialLine else [] }, false)
  else if producer.waiting = true ∧ producer.handle = none then (producer.reopen opened, true)
  else if handleSize.any (· < producer.readOffset) then
    -- Branch (iii): the file is shorter than what was read.
    ({ producer with
        readOffset := 0
        waiting := false
        partialLine := []
        rotationCount := producer.rotationCount + 1 }, true)
  else ({ producer with waiting := false }, false)

/-- How many bytes `ReadMoreBytes` asks for when the file has a size. -/
def bytesToRead (options : TailOptions) (producer : TailingBytesProducer) (size : Option Nat) :
    Nat :=
  min (size.getD 0 - producer.readOffset) options.readChunkBytes

/-- `ReadMoreBytes` on the bytes that its read returns. -/
def readMoreBytes (producer : TailingBytesProducer) (data : Bytes) : TailingBytesProducer :=
  if data = [] then producer
  else { producer.appendBytesAndSplit data with readOffset := producer.readOffset + data.length }

/-- `FlushPartialLineLocked`. -/
def flushPartialLine (producer : TailingBytesProducer) : TailingBytesProducer :=
  if producer.partialLine = [] then producer
  else
    let ready := producer.readyBuffer ++ producer.partialLine
    { producer with
      readyBuffer := if ready.getLast? = some newline then ready else ready ++ [newline]
      partialLine := [] }

/-- Compaction drops what is consumed once it is 64 KiB and half of the buffer. -/
def compactReadyBufferIfNeeded (producer : TailingBytesProducer) : TailingBytesProducer :=
  if 64 * 1024 ≤ producer.readyConsumed ∧
    producer.readyBuffer.length ≤ producer.readyConsumed * 2 then
    { producer with
      readyBuffer := producer.readyBuffer.drop producer.readyConsumed
      readyConsumed := 0 }
  else producer

/-- `Read` by the consumer. -/
def read (producer : TailingBytesProducer) (bufferSize : Nat) : Bytes × TailingBytesProducer :=
  let available := producer.readyBuffer.drop producer.readyConsumed
  let toCopy := min available.length bufferSize
  if toCopy = 0 then ([], producer)
  else
    (available.take toCopy,
      { producer with readyConsumed := producer.readyConsumed + toCopy }.compactReadyBufferIfNeeded)

end TailingBytesProducer

/-- The producer with the files it tails and the consumer that reads from it. -/
structure Tailing where
  disk : Disk
  producer : TailingBytesProducer
  /-- Everything the consumer has read. -/
  received : Bytes
  /-- The bytes in front of the read offset as they were when they were read. Only proofs
  look at them. -/
  taken : Bytes
  /-- Reading would go on in the middle of a line whose beginning was left out: the path went
  missing there, or the pre-fill skipped to there. Only proofs look at it. -/
  torn : Bool
deriving DecidableEq

/-- A poll by the worker, or a read by the consumer. -/
inductive TailMove where
  | poll (gaps : PollGaps)
  | read (bufferSize : Nat)

namespace Tailing

/-- The content of the file behind the handle. -/
def openContent (state : Tailing) : Bytes := (state.producer.handle.bind state.disk.content).getD []

/-- Some bytes end in the middle of a line. -/
def midLine (bytes : Bytes) : Bool := (splitLines newline bytes).2 ≠ []

/-- A path with some content, opened and pre-filled. -/
def open_ (options : TailOptions) (content : Bytes) (gaps : PrefillGaps) : Tailing :=
  let (disk, producer) := TailingBytesProducer.prefill options gaps (.ofContent content) (.start 0)
  let taken := ((disk.content 0).getD []).take producer.readOffset
  ⟨disk, producer, [], taken, TailingBytesProducer.prefillSkips options gaps (.ofContent content)
    (.start 0) && midLine taken⟩

/-- The rotation check of a poll. -/
def detect (state : Tailing) (gaps : PollGaps) : Tailing :=
  let disk := state.disk.acts gaps.beforePathCheck
  let pathId := disk.fromPath
  let disk := disk.acts gaps.beforeOpen
  let opened := disk.openForTail gaps.openFails
  let disk := disk.acts gaps.beforeShrinkCheck
  -- The size is asked of the handle that is still open, not of the path.
  let handleSize := disk.sizeOfOpenHandle state.producer.handle
  let (producer, rotated) := state.producer.detectAndRecoverRotation pathId opened handleSize
  { state with
    disk, producer
    taken := if rotated then [] else state.taken
    torn := !rotated && (state.torn || pathId.isNone && !state.producer.waiting &&
      midLine state.taken) }

/-- The moment at which a poll reads, when the check is done. -/
def readMoment (state : Tailing) (gaps : PollGaps) : Tailing :=
  { state with disk := (state.disk.acts gaps.beforeSize).acts gaps.beforeRead }

/-- The bytes that a poll reads when the check is done. -/
def pulled (options : TailOptions) (state : Tailing) (gaps : PollGaps) : Bytes :=
  let size := (state.disk.acts gaps.beforeSize).sizeOfOpenHandle state.producer.handle
  (state.readMoment gaps).disk.readAtOffset state.producer.handle
    (state.producer.bytesToRead options size)
    state.producer.readOffset gaps.readFails

/-- The read of a poll. -/
def pull (options : TailOptions) (state : Tailing) (gaps : PollGaps) : Tailing :=
  let data := state.pulled options gaps
  { state.readMoment gaps with
    producer := state.producer.readMoreBytes data
    taken := state.taken ++ data }

/-- One turn of `WorkerMain`, or one `Read`. -/
def move (options : TailOptions) (state : Tailing) : TailMove → Tailing
  | .poll gaps => (state.detect gaps).pull options gaps
  | .read bufferSize =>
    let (data, producer) := state.producer.read bufferSize
    { state with producer, received := state.received ++ data }

/-- A move as a step, which never fails. -/
def step (options : TailOptions) (state : Tailing) (next : TailMove) : Option Tailing :=
  some (state.move options next)

/-- The end of `WorkerMain`. No rotation is in progress between two calls, so the partial
line is flushed. -/
def stop (state : Tailing) : Tailing := { state with producer := state.producer.flushPartialLine }

/-- What the consumer has read or can read. -/
def delivered (state : Tailing) : Bytes :=
  state.received ++ state.producer.readyBuffer.drop state.producer.readyConsumed

/-- The read of a poll goes on where the last one stopped: the bytes in front of it are still there,
and it is not in the middle of a line whose beginning was left out. -/
def GoesOn (state : Tailing) (gaps : PollGaps) : Prop :=
  ((state.detect gaps).readMoment gaps).openContent.take (state.detect gaps).producer.readOffset =
      (state.detect gaps).taken ∧
    (state.detect gaps).torn = false

/-- A move reads nothing from the file, or goes on where the last read stopped. -/
def ReadsOn (options : TailOptions) (state : Tailing) : TailMove → Prop
  | .poll gaps => (state.detect gaps).pulled options gaps = [] ∨ state.GoesOn gaps
  | .read _ => True

end Tailing

end Loglib
