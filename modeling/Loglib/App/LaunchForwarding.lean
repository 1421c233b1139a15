import Loglib.Basic.DataStream

/-! Launch forwarding: the frame a second launch sends, and the decoder of the first one. -/

namespace Loglib

open DataStream

/-- A `QString` by its UTF-16 code units; `none` is the null string. -/
abbrev QString := Option (List UInt16)

/-- What the frame starts with. -/
def WIRE_MAGIC : Bytes := bytes "STRUCTLOG"

/-- The bytes of the magic with its length, and of the version. -/
def MAGIC_FRAME_PEEK_BYTES : Nat := 4 + WIRE_MAGIC.length + 1

/-- The version that is written. -/
def WIRE_VERSION : UInt8 := 3

/-- The oldest version that is read. -/
def WIRE_VERSION_MIN_SUPPORTED : UInt8 := 2

/-- The newest version that is read. -/
def WIRE_VERSION_MAX_SUPPORTED : UInt8 := 3

/-- The most bytes a connection may hold. -/
def MAX_PAYLOAD_BYTES : Nat := 1024 * 1024

/-- The most files a launch may forward. -/
def MAX_FORWARDED_FILES : Nat := 256

/-- The one known launch flag. -/
def DISABLE_ROTATION_HISTORY : UInt32 := 1

/-- The length that stands for a null string or byte array. -/
def NULL_LENGTH : UInt32 := 0xFFFFFFFF

section Framing

/-- A `QByteArray` on the stream. -/
def writeByteArray (data : Bytes) : Bytes := writeU32 data.length.toUInt32 ++ data

/-- One code unit, the high byte first. -/
def writeUnit (unit : UInt16) : Bytes := [(unit >>> 8).toUInt8, unit.toUInt8]

/-- A `QString` on the stream: the number of bytes and the code units. -/
def writeString : QString → Bytes
  | none => writeU32 NULL_LENGTH
  | some units => writeU32 (2 * units.length).toUInt32 ++ units.flatMap writeUnit

/-- A `QStringList` on the stream. -/
def writeStringList (files : List QString) : Bytes :=
  writeU32 files.length.toUInt32 ++ files.flatMap writeString

/-- Read a `QByteArray`. -/
def readByteArray : StateM DataStream Bytes := do
  let length ← readU32
  if length = NULL_LENGTH then pure [] else
    let raw ← readRaw length.toNat
    pure (raw.getD [])

/-- The code units that bytes spell; an odd byte at the end is dropped. -/
def readUnits : Bytes → List UInt16
  | high :: low :: rest => ((high.toNat * 256 + low.toNat).toUInt16) :: readUnits rest
  | _ => []

/-- Read the code units of a `QString`; an odd number of bytes is corrupt data. -/
def readStringUnits (length : UInt32) : StateM DataStream QString :=
  if length = NULL_LENGTH then pure none
  else if length % 2 = 1 then do
    modify fun stream => { stream with ok := false }
    pure none
  else do
    let raw ← readRaw length.toNat
    pure (raw.map readUnits)

/-- Read a `QString`. -/
def readString : StateM DataStream QString := readU32 >>= readStringUnits

/-- Read a `QStringList`. -/
def readStringList : StateM DataStream (List QString) := do
  let count ← readU32
  readItems readString count.toNat []

/-- The number of a short length. -/
theorem toNat_toUInt32_of_lt {length : Nat} (short : length < 2 ^ 32) :
    length.toUInt32.toNat = length := by
  simpa using Nat.mod_eq_of_lt short

/-- A short length is no null marker. -/
theorem toUInt32_ne_null {length : Nat} (short : length < 2 ^ 32 - 1) :
    length.toUInt32 ≠ NULL_LENGTH := by
  intro same
  have value := congrArg UInt32.toNat same
  rw [toNat_toUInt32_of_lt (by omega)] at value
  have null : NULL_LENGTH.toNat = 2 ^ 32 - 1 := rfl
  omega

/-- A byte array is framed. -/
theorem framed_readByteArray {data : Bytes} (short : data.length < 2 ^ 32 - 1) :
    Framed readByteArray data (writeByteArray data) := by
  refine (framed_readU32 _).bind ?_ fun length => ?_
  · -- The length is the one written.
    rw [if_neg (toUInt32_ne_null short), toNat_toUInt32_of_lt (by omega)]
    exact (framed_readRaw data).map _
  · split
    · exact Quiet.pure _
    · exact (quiet_readRaw _).bind fun _ => Quiet.pure _

/-- Two bytes a unit. -/
@[simp] theorem length_flatMap_writeUnit (units : List UInt16) :
    (units.flatMap writeUnit).length = 2 * units.length := by
  induction units with
  | nil => rfl
  | cons unit rest ih =>
    rw [List.flatMap_cons, List.length_append, ih]
    simp only [writeUnit, List.length_cons, List.length_nil]
    omega

/-- The two bytes of a unit spell it. -/
theorem readUnits_writeUnit (units : List UInt16) :
    readUnits (units.flatMap writeUnit) = units := by
  -- Two bytes a unit, the high one first.
  induction units with
  | nil => rfl
  | cons unit rest ih =>
    change _ :: readUnits (rest.flatMap writeUnit) = _
    rw [ih]
    congr 1
    apply UInt16.toNat_inj.mp
    have bound := unit.toNat_lt
    simp [Nat.shiftRight_eq_div_pow]
    omega

/-- Reading the code units is quiet, whatever their number. -/
theorem quiet_readStringUnits (length : UInt32) : Quiet (readStringUnits length) := by
  unfold readStringUnits
  split
  · exact Quiet.pure _
  · split
    · rfl
    · exact (quiet_readRaw _).bind fun _ => Quiet.pure _

/-- Reading a string is quiet. -/
theorem quiet_readString : Quiet readString := quiet_readU32.bind quiet_readStringUnits

/-- The code units of a string are framed by their number. -/
theorem framed_readStringUnits {units : List UInt16} (short : 2 * units.length < 2 ^ 32 - 1) :
    Framed (readStringUnits (2 * units.length).toUInt32) (some units)
      (units.flatMap writeUnit) := by
  -- The number of bytes is even, and no marker.
  have number := @toNat_toUInt32_of_lt (2 * units.length) (by omega)
  have even : ¬(2 * units.length).toUInt32 % 2 = 1 := by
    intro odd
    have value := congrArg UInt32.toNat odd
    rw [UInt32.toNat_mod, number] at value
    have one : (1 : UInt32).toNat = 1 := rfl
    have two : (2 : UInt32).toNat = 2 := rfl
    rw [one, two] at value
    omega
  rw [readStringUnits, if_neg (toUInt32_ne_null short), if_neg even, number,
    ← length_flatMap_writeUnit]
  have raw := (framed_readRaw (units.flatMap writeUnit)).map fun raw => raw.map readUnits
  rwa [Option.map_some, readUnits_writeUnit] at raw

/-- A string shorter than four gigabytes is framed. -/
theorem framed_readString {text : QString} (short : (writeString text).length < 2 ^ 32 - 1) :
    Framed readString text (writeString text) := by
  -- An absent text is marked by its length.
  cases text with
  | none =>
    have marked := (framed_readU32 NULL_LENGTH).bind (Framed.pure none) quiet_readStringUnits
    rwa [List.append_nil] at marked
  | some units =>
    have bytes : (writeString (some units)).length = 4 + 2 * units.length := by
      rw [writeString, List.length_append, length_writeU32, length_flatMap_writeUnit]
    exact (framed_readU32 _).bind (framed_readStringUnits (by omega)) quiet_readStringUnits

/-- Every string takes four bytes and more. -/
theorem four_le_length_writeString (text : QString) : 4 ≤ (writeString text).length := by
  cases text with
  | none => exact Nat.le_refl 4
  | some units =>
    rw [writeString, List.length_append, length_writeU32]
    exact Nat.le_add_right 4 _

/-- There are fewer strings than bytes. -/
theorem length_le_flatMap_writeString (files : List QString) :
    files.length ≤ (files.flatMap writeString).length := by
  induction files with
  | nil => exact Nat.le_refl 0
  | cons file rest ih =>
    have one := four_le_length_writeString file
    rw [List.flatMap_cons, List.length_append, List.length_cons]
    omega

/-- Reading a list of strings is quiet. -/
theorem quiet_readStringList : Quiet readStringList :=
  quiet_readU32.bind fun _ => quiet_readItems quiet_readString _ _

/-- A list of strings shorter than four gigabytes is framed. -/
theorem framed_readStringList {files : List QString}
    (short : (writeStringList files).length < 2 ^ 32 - 1) :
    Framed readStringList files (writeStringList files) := by
  have total : (writeStringList files).length = 4 + (files.flatMap writeString).length := by
    rw [writeStringList, List.length_append, length_writeU32]
  -- Each file is shorter than the whole list, so its length fits.
  have each : ∀ file ∈ files, Framed readString file (writeString file) := by
    intro file member
    have listed : writeString file ∈ files.map writeString := List.mem_map_of_mem member
    have inside := (List.sublist_flatten_of_mem listed).length_le
    rw [← List.flatMap_def] at inside
    exact framed_readString (by omega)
  -- So does their number.
  have few : files.length < 2 ^ 32 := by
    have lengths := length_le_flatMap_writeString files
    omega
  have items := framed_readItems writeString files each []
  rw [List.nil_append] at items
  refine (framed_readU32 _).bind ?_ fun _ => quiet_readItems quiet_readString _ _
  rw [toNat_toUInt32_of_lt few]
  exact items

end Framing

section Sender

/-- The frame of a launch. -/
def serialise (trimmed : List QString) (truncatedCount launchFlags : UInt32) : Bytes :=
  writeByteArray WIRE_MAGIC ++ [WIRE_VERSION] ++ writeStringList trimmed ++
    writeU32 truncatedCount ++
    writeU32 launchFlags

/-- Drop files from the end until the frame fits; the number of files bounds the loop. -/
def trimTail (launchFlags : UInt32) : Nat → List QString → UInt32 → List QString × UInt32
  | 0, trimmed, truncatedCount => (trimmed, truncatedCount)
  | count + 1, trimmed, truncatedCount =>
    if MAX_PAYLOAD_BYTES < (serialise trimmed truncatedCount launchFlags).length then
      trimTail launchFlags count trimmed.dropLast (truncatedCount + 1)
    else (trimmed, truncatedCount)

/-- The files that are sent, and the number of those that are not. -/
def trimFiles (forwardFiles : List QString) (launchFlags : UInt32) : List QString × UInt32 :=
  let trimmed := forwardFiles.take MAX_FORWARDED_FILES
  trimTail launchFlags trimmed.length trimmed (forwardFiles.length - MAX_FORWARDED_FILES).toUInt32

/-- The bytes that `TryAcquire` serialises. -/
def forwardPayload (forwardFiles : List QString) (launchFlags : UInt32) : Bytes :=
  serialise (trimFiles forwardFiles launchFlags).1 (trimFiles forwardFiles launchFlags).2
    launchFlags

/-- The length of a frame grows with the list only. -/
theorem length_serialise (trimmed : List QString) (truncatedCount launchFlags : UInt32) :
    (serialise trimmed truncatedCount launchFlags).length = 26 +
      (trimmed.flatMap writeString).length := by
  simp only [serialise, writeByteArray, writeStringList, List.length_append, length_writeU32]
  have magic : WIRE_MAGIC.length = 9 := rfl
  rw [magic, List.length_singleton]
  omega

/-- Trimming keeps the first files, counts the others, and ends with a frame that fits. -/
theorem trimTail_spec (launchFlags : UInt32) (count : Nat) (trimmed : List QString)
    (truncatedCount : UInt32)
    (all : trimmed.length = count) : ∃ kept ≤ count,
      (trimTail launchFlags count trimmed truncatedCount).1 = trimmed.take kept ∧
      (trimTail launchFlags count trimmed truncatedCount).2 = truncatedCount +
        (count - kept).toUInt32 ∧
      26 + ((trimTail launchFlags count trimmed truncatedCount).1.flatMap writeString).length ≤
        MAX_PAYLOAD_BYTES := by
  induction count generalizing trimmed truncatedCount with
  | zero =>
    obtain rfl : trimmed = [] := List.eq_nil_of_length_eq_zero all
    refine ⟨0, le_rfl, rfl, by simp [trimTail], ?_⟩
    change 26 + 0 ≤ MAX_PAYLOAD_BYTES
    decide
  | succ count ih =>
    rw [trimTail]
    split
    · -- One file fewer, one more in the count.
      have shorter : trimmed.dropLast.length = count := by
        rw [List.length_dropLast, all]
        omega
      obtain ⟨kept, bound, files, dropped, fits⟩ := ih trimmed.dropLast (truncatedCount + 1) shorter
      refine ⟨kept, by omega, ?_, ?_, fits⟩
      · rw [files, List.dropLast_eq_take, List.take_take, all]
        congr 1
        omega
      · rw [dropped, Nat.succ_sub bound, Nat.toUInt32_eq, Nat.toUInt32_eq, Nat.succ_eq_add_one,
          UInt32.ofNat_add, add_assoc, add_comm 1]
        rfl
    · rename_i fits
      refine ⟨count + 1, le_rfl, ?_, ?_, ?_⟩
      · rw [List.take_of_length_le all.le]
      · simp
      · rw [length_serialise] at fits
        exact Nat.not_lt.mp fits

/-- The files that are sent are the first ones, and the frame fits. -/
theorem trimFiles_spec (forwardFiles : List QString) (launchFlags : UInt32) :
    ∃ kept ≤ forwardFiles.length,
    kept ≤ MAX_FORWARDED_FILES ∧ (trimFiles forwardFiles launchFlags).1 = forwardFiles.take kept ∧
    (trimFiles forwardFiles launchFlags).2 = (forwardFiles.length - kept).toUInt32 ∧
    (forwardPayload forwardFiles launchFlags).length ≤ MAX_PAYLOAD_BYTES := by
  -- Two cuts, first to the number of files and then to the bytes of the payload.
  obtain ⟨kept, bound, files, dropped, fits⟩ :=
    trimTail_spec launchFlags _ (forwardFiles.take MAX_FORWARDED_FILES)
    (forwardFiles.length - MAX_FORWARDED_FILES).toUInt32 rfl
  rw [List.length_take] at bound
  refine ⟨kept, by omega, by omega, ?_, ?_, ?_⟩
  · rw [trimFiles, files, List.take_take]
    congr 1
    omega
  · rw [trimFiles, dropped, List.length_take, Nat.toUInt32_eq, Nat.toUInt32_eq, ← UInt32.ofNat_add]
    congr 1
    omega
  · rw [forwardPayload, length_serialise]
    exact fits

end Sender

section Receiver

/-- The request that the first launch emits. -/
structure LaunchRequest where
  files : List QString
  truncatedCount : Int
  launchFlags : UInt32
deriving DecidableEq

/-- What the decoder makes of a buffer. -/
inductive DecodedLaunch where
  | reject
  | wait
  | request (launch : LaunchRequest)

/-- The magic and the version. -/
def readHeader : StateM DataStream (Bytes × UInt8) := do
  let magic ← readByteArray
  let version ← readU8
  pure (magic, version)

/-- The fields that every version has. -/
def readBody : StateM DataStream (UInt8 × List QString × UInt32) := do
  let header ← readHeader
  let files ← readStringList
  let truncatedCount ← readU32
  pure (header.2, files, truncatedCount)

/-- The flags behind them. -/
def readFlags : StateM DataStream UInt32 := do
  let _ ← readBody
  readU32

/-- Cap the files of a frame, and keep the known flags. -/
def acceptLaunch (files : List QString) (truncatedCount launchFlagsRaw : UInt32) :
    LaunchRequest where
  files := files.take MAX_FORWARDED_FILES
  truncatedCount := Int.bmod (truncatedCount + (files.length - MAX_FORWARDED_FILES).toUInt32).toNat
    (2 ^ 32)
  launchFlags := if launchFlagsRaw &&& DISABLE_ROTATION_HISTORY ≠ 0 then DISABLE_ROTATION_HISTORY
    else 0

/-- The header is there and not the one of a supported frame. -/
def headerRejected (buffer : Bytes) : Bool :=
  let header := readHeader ⟨buffer, true⟩
  MAGIC_FRAME_PEEK_BYTES ≤ buffer.length &&
    (!header.2.ok || header.1.1 != WIRE_MAGIC || header.1.2 < WIRE_VERSION_MIN_SUPPORTED ||
      WIRE_VERSION_MAX_SUPPORTED < header.1.2)

/-- One attempt to decode, from the first byte of the buffer. -/
def decodeLaunch (buffer : Bytes) : DecodedLaunch :=
  if headerRejected buffer then .reject
  else
    let body := readBody ⟨buffer, true⟩
    let flags := readFlags ⟨buffer, true⟩
    if body.2.ok = false then .wait
    else if body.1.1 < 3 then .request (acceptLaunch body.1.2.1 body.1.2.2 0)
    else if flags.2.ok = false then .wait
    else .request (acceptLaunch body.1.2.1 body.1.2.2 flags.1)

/-- The state of one connection. -/
structure ConnState where
  buffer : Bytes
  frameConsumed : Bool
  /-- `disconnectFromServer` was called. -/
  disconnecting : Bool

namespace ConnState

/-- A new connection. -/
def initial : ConnState := ⟨[], false, false⟩

/-- `tryDecode` on what the socket has, with the request it emits. -/
def tryDecode (state : ConnState) (chunk : Bytes) : ConnState × Option LaunchRequest :=
  -- One request a connection; what follows it is ignored.
  if state.frameConsumed then (state, none)
  else
    let buffer := state.buffer ++ chunk
    if MAX_PAYLOAD_BYTES < buffer.length then
      ({ state with buffer := buffer, disconnecting := true }, none)
    else
      match decodeLaunch buffer with
      -- A frame that cannot be decoded ends the connection.
      | .reject => ({ state with buffer := buffer, disconnecting := true }, none)
      | .wait => ({ state with buffer := buffer }, none)
      | .request launch => (⟨[], true, true⟩, some launch)

/-- The requests that a connection emits over its reads. -/
def emitted : ConnState → List Bytes → List LaunchRequest
  | _, [] => []
  | state, chunk :: rest =>
    (state.tryDecode chunk).2.toList ++ emitted (state.tryDecode chunk).1 rest

end ConnState

/-- The header of a frame that is written. -/
def writtenHeader : Bytes := writeByteArray WIRE_MAGIC ++ [WIRE_VERSION]

/-- The header is framed. -/
theorem framed_readHeader : Framed readHeader (WIRE_MAGIC, WIRE_VERSION) writtenHeader := by
  refine (framed_readByteArray (by decide)).bind ((framed_readU8 WIRE_VERSION).map _) fun _ => ?_
  exact quiet_readU8.bind fun _ => Quiet.pure _

variable {trimmed : List QString} {truncatedCount launchFlags : UInt32}

/-- The body is framed. -/
theorem framed_readBody (short : (writeStringList trimmed).length < 2 ^ 32 - 1) :
    Framed readBody (WIRE_VERSION, trimmed, truncatedCount)
      (writtenHeader ++ (writeStringList trimmed ++ writeU32 truncatedCount)) := by
  have count := (framed_readU32 truncatedCount).map fun count => (WIRE_VERSION, trimmed, count)
  -- The version stands in the header; files and count follow it.
  have files : Framed (readStringList >>= fun files => readU32 >>= fun count =>
    pure (WIRE_VERSION, files, count))
      (WIRE_VERSION, trimmed, truncatedCount)
        (writeStringList trimmed ++ writeU32 truncatedCount) :=
    (framed_readStringList short).bind count fun _ => quiet_readU32.bind fun _ => Quiet.pure _
  exact framed_readHeader.bind files fun _ => quiet_readStringList.bind fun _ =>
    quiet_readU32.bind fun _ => Quiet.pure _

/-- The frame is the body and the flags. -/
theorem serialise_eq : serialise trimmed truncatedCount launchFlags =
    writtenHeader ++ (writeStringList trimmed ++ writeU32 truncatedCount) ++
      writeU32 launchFlags := by
  simp [serialise, writtenHeader]

/-- The whole frame is framed. -/
theorem framed_readFlags (short : (writeStringList trimmed).length < 2 ^ 32 - 1) :
    Framed readFlags launchFlags (serialise trimmed truncatedCount launchFlags) := by
  rw [serialise_eq]
  exact (framed_readBody short).bind (framed_readU32 launchFlags) fun _ => quiet_readU32

/-- What is in front of a whole header is not rejected. -/
theorem headerRejected_append (rest : Bytes) : headerRejected (writtenHeader ++ rest) = false := by
  rw [headerRejected, framed_readHeader.whole rest]
  simp [WIRE_VERSION, WIRE_VERSION_MIN_SUPPORTED, WIRE_VERSION_MAX_SUPPORTED]

/-- A whole frame is decoded, whatever follows it. -/
theorem decodeLaunch_append (short : (writeStringList trimmed).length < 2 ^ 32 - 1) (rest : Bytes) :
    decodeLaunch (serialise trimmed truncatedCount launchFlags ++ rest) =
      .request (acceptLaunch trimmed truncatedCount launchFlags) := by
  -- Header and body are read off the front, and what follows the flags is not looked at.
  have header : headerRejected (serialise trimmed truncatedCount launchFlags ++ rest) = false := by
    rw [serialise_eq, List.append_assoc, List.append_assoc]
    exact headerRejected_append _
  have body : readBody ⟨serialise trimmed truncatedCount launchFlags ++ rest, true⟩ =
      ((WIRE_VERSION, trimmed, truncatedCount), ⟨writeU32 launchFlags ++ rest, true⟩) := by
    rw [serialise_eq, List.append_assoc]
    exact (framed_readBody short).whole _
  have old : ¬WIRE_VERSION < 3 := by decide
  rw [decodeLaunch, header, body, (framed_readFlags short).whole rest]
  simp [old]

/-- A buffer is waited for while its flags are missing, unless it is of an old version. -/
theorem decodeLaunch_eq_wait {buffer : Bytes} (header : headerRejected buffer = false)
    (flags : (readFlags ⟨buffer, true⟩).2 = exhausted)
    (body : (readBody ⟨buffer, true⟩).2.ok = false ∨ ¬(readBody ⟨buffer, true⟩).1.1 < 3) :
    decodeLaunch buffer = .wait := by
  have failed : (readFlags ⟨buffer, true⟩).2.ok = false := by rw [flags, exhausted]
  rw [decodeLaunch, header, if_neg Bool.false_ne_true]
  rcases body with missing | new
  · exact if_pos missing
  · simp [new, failed]

/-- A frame that is not there in full is waited for. -/
theorem decodeLaunch_cut (short : (writeStringList trimmed).length < 2 ^ 32 - 1)
    {front back : Bytes}
    (whole : serialise trimmed truncatedCount launchFlags = front ++ back) (missing : back ≠ []) :
    decodeLaunch front = .wait := by
  -- Once the peek reads, the header is whole.
  have header : headerRejected front = false := by
    by_cases peeked : MAGIC_FRAME_PEEK_BYTES ≤ front.length
    · have inside : writtenHeader <+: front := by
        refine List.prefix_of_prefix_length_le ?_ (List.prefix_append front back) peeked
        rw [← whole, serialise_eq, List.append_assoc]
        exact List.prefix_append _ _
      obtain ⟨rest, rfl⟩ := inside
      exact headerRejected_append rest
    · simp [headerRejected, peeked]
  have flags : (readFlags ⟨front, true⟩).2 = exhausted :=
    (framed_readFlags short).cut front back whole missing
  refine decodeLaunch_eq_wait header flags ?_
  have old : ¬WIRE_VERSION < 3 := by decide
  -- The buffer ends inside the body, or behind it.
  rw [serialise_eq] at whole
  rcases List.append_eq_append_iff.mp whole with ⟨inner, rfl, -⟩ | ⟨inner, same, rfl⟩
  · rw [(framed_readBody short).whole inner]
    exact .inr old
  · by_cases ends : inner = []
    · have all : readBody ⟨writtenHeader ++ (writeStringList trimmed ++ writeU32 truncatedCount) ++
        [], true⟩ =
          ((WIRE_VERSION, trimmed, truncatedCount), ⟨[], true⟩) := (framed_readBody short).whole []
      rw [List.append_nil, same, ends, List.append_nil] at all
      rw [all]
      exact .inr old
    · rw [(framed_readBody short).cut front inner same ends]
      exact .inl rfl

namespace ConnState

/-- A consumed connection emits nothing more. -/
theorem emitted_consumed {state : ConnState} (consumed : state.frameConsumed = true)
    (reads : List Bytes) :
    state.emitted reads = [] := by
  induction reads with
  | nil => rfl
  | cons chunk rest ih =>
    have same : state.tryDecode chunk = (state, none) := if_pos consumed
    rw [emitted, same]
    exact ih

/-- A read that brings too many bytes ends the connection. -/
theorem tryDecode_oversized {state : ConnState} (open_ : state.frameConsumed = false)
    {chunk : Bytes}
    (large : MAX_PAYLOAD_BYTES < (state.buffer ++ chunk).length) :
    state.tryDecode chunk = (⟨state.buffer ++ chunk, false, true⟩, none) := by
  rw [tryDecode, open_, if_neg Bool.false_ne_true, if_pos large]

/-- A connection with too many bytes emits nothing more. -/
theorem emitted_oversized {state : ConnState} (open_ : state.frameConsumed = false)
    {reads : List Bytes}
    (size : MAX_PAYLOAD_BYTES < state.buffer.length) : state.emitted reads = [] := by
  -- The buffer only grows, so the size stays above the cap.
  induction reads generalizing state with
  | nil => rfl
  | cons chunk rest ih =>
    have larger : MAX_PAYLOAD_BYTES < (state.buffer ++ chunk).length := by
      rw [List.length_append]
      omega
    rw [emitted, tryDecode_oversized open_ larger]
    exact ih rfl larger

/-- The frame arrives over some reads: nothing is emitted before its last byte, and the request with
it, unless that read brings too many bytes. -/
theorem emitted_frame {state : ConnState} (open_ : state.frameConsumed = false)
    (short : (writeStringList trimmed).length < 2 ^ 32 - 1) {reads : List Bytes} {trailing : Bytes}
    (cut : state.buffer ++ reads.flatten = serialise trimmed truncatedCount launchFlags ++ trailing)
    (before : state.buffer.length < (serialise trimmed truncatedCount launchFlags).length)
    (fits : (serialise trimmed truncatedCount launchFlags).length ≤ MAX_PAYLOAD_BYTES) :
    ∃ first chunk rest, reads = first ++ chunk :: rest ∧
      (state.buffer ++ first.flatten).length <
        (serialise trimmed truncatedCount launchFlags).length ∧
      (serialise trimmed truncatedCount launchFlags).length ≤
        (state.buffer ++ (first ++ [chunk]).flatten).length ∧
      state.emitted first = [] ∧ state.emitted reads =
        if (state.buffer ++ (first ++ [chunk]).flatten).length ≤ MAX_PAYLOAD_BYTES then
          [acceptLaunch trimmed truncatedCount launchFlags]
        else [] := by
  -- The induction is on the reads, and the buffer holds what has arrived.
  induction reads generalizing state with
  | nil =>
    have lengths := congrArg List.length cut
    simp only [List.flatten_nil, List.append_nil, List.length_append] at lengths
    omega
  | cons chunk rest ih =>
    rw [List.flatten_cons, ← List.append_assoc] at cut
    by_cases waiting : (state.buffer ++ chunk).length <
      (serialise trimmed truncatedCount launchFlags).length
    · -- The buffer is a proper prefix of the frame.
      have inside : state.buffer ++ chunk <+: serialise trimmed truncatedCount launchFlags :=
        List.prefix_of_prefix_length_le (cut ▸ List.prefix_append _ _)
          (List.prefix_append _ trailing) waiting.le
      obtain ⟨back, whole⟩ := inside
      have missing : back ≠ [] := by
        intro none_
        rw [← whole, none_, List.append_nil] at waiting
        exact Nat.lt_irrefl _ waiting
      have decoded := decodeLaunch_cut short whole.symm missing
      have small : ¬MAX_PAYLOAD_BYTES < (state.buffer ++ chunk).length := by omega
      have next : state.tryDecode chunk = ({ state with buffer := state.buffer ++ chunk },
          none) := by
        rw [tryDecode, open_, if_neg Bool.false_ne_true, if_neg small, decoded]
      obtain ⟨first, last, others, rfl, early, late, silent, told⟩ :=
        @ih { state with buffer := state.buffer ++ chunk } open_ cut waiting
      refine ⟨chunk :: first, last, others, rfl, ?_, ?_, ?_, ?_⟩
      · rwa [List.flatten_cons, ← List.append_assoc]
      · rwa [List.cons_append, List.flatten_cons, ← List.append_assoc]
      · rw [emitted, next]
        exact silent
      · rw [emitted, next, List.cons_append, List.flatten_cons, ← List.append_assoc]
        exact told
    · refine ⟨[], chunk, rest, rfl, by simpa using before, by simpa using waiting, rfl, ?_⟩
      rw [List.nil_append, List.flatten_singleton]
      split
      · -- The frame is there, and the connection has done its work.
        rename_i small
        have inside : serialise trimmed truncatedCount launchFlags <+: state.buffer ++ chunk :=
          List.prefix_of_prefix_length_le (List.prefix_append _ trailing)
            (cut ▸ List.prefix_append _ _)
            (Nat.not_lt.mp waiting)
        obtain ⟨more, whole⟩ := inside
        have decoded : decodeLaunch (serialise trimmed truncatedCount launchFlags ++ more) =
            .request (acceptLaunch trimmed truncatedCount launchFlags) :=
              decodeLaunch_append short more
        rw [whole] at decoded
        have next : state.tryDecode chunk =
            (⟨[], true, true⟩, some (acceptLaunch trimmed truncatedCount launchFlags)) := by
          rw [tryDecode, open_, if_neg Bool.false_ne_true, if_neg (Nat.not_lt.mpr small), decoded]
        rw [emitted, next, emitted_consumed rfl]
        rfl
      · rename_i large
        rw [emitted, tryDecode_oversized open_ (Nat.not_le.mp large),
          emitted_oversized rfl (Nat.not_le.mp large)]
        rfl

end ConnState

/-- The request opens the first files of the launch, with its known flags and the number
of the others. -/
structure LaunchRequest.Delivers (forwardFiles : List QString) (launchFlags : UInt32)
    (launch : LaunchRequest) :
    Prop where
  flags : launch.launchFlags = launchFlags &&& DISABLE_ROTATION_HISTORY
  first : launch.files = forwardFiles.take launch.files.length
  /-- The count is a 32-bit number. -/
  count : launch.truncatedCount = Int.bmod (forwardFiles.length - launch.files.length) (2 ^ 32)
  /-- With fewer than `2 ^ 31` files, nothing is lost from the count. -/
  total : forwardFiles.length < 2 ^ 31 →
    launch.files.length + launch.truncatedCount = forwardFiles.length

/-- The known bit of the flags. -/
theorem knownFlags_eq (raw : UInt32) :
    (if raw &&& DISABLE_ROTATION_HISTORY ≠ 0 then DISABLE_ROTATION_HISTORY else 0) =
      raw &&& DISABLE_ROTATION_HISTORY := by
  -- The flag is the lowest bit.
  have bit : raw &&& DISABLE_ROTATION_HISTORY = 0 ∨ raw &&& DISABLE_ROTATION_HISTORY = 1 := by
    have value : (raw &&& DISABLE_ROTATION_HISTORY).toNat = raw.toNat % 2 := by
      rw [UInt32.toNat_and]
      exact Nat.and_one_is_mod raw.toNat
    have two : raw.toNat % 2 = 0 ∨ raw.toNat % 2 = 1 := by omega
    rcases two with zero | one
    · exact .inl (UInt32.toNat_inj.mp (value.trans zero))
    · exact .inr (UInt32.toNat_inj.mp (value.trans one))
  rcases bit with zero | one
  · simp [zero]
  · rw [one]
    rfl

/-- The frame of a launch becomes its request. -/
theorem acceptLaunch_delivers (forwardFiles : List QString) (launchFlags : UInt32) :
    (acceptLaunch (trimFiles forwardFiles launchFlags).1 (trimFiles forwardFiles launchFlags).2
      launchFlags).Delivers forwardFiles launchFlags := by
  obtain ⟨kept, bound, few, files, dropped, -⟩ := trimFiles_spec forwardFiles launchFlags
  have length : (forwardFiles.take kept).length = kept := List.length_take_of_le bound
  -- The list is within the cap, so that the decoder adds nothing to the count.
  have capped : (forwardFiles.take kept).take MAX_FORWARDED_FILES = forwardFiles.take kept :=
    List.take_of_length_le (length.le.trans few)
  have overrun : (forwardFiles.take kept).length - MAX_FORWARDED_FILES = 0 := by omega
  have count : Int.bmod ((forwardFiles.length - kept).toUInt32 + (0 : Nat).toUInt32).toNat
    (2 ^ 32) =
      Int.bmod (forwardFiles.length - kept) (2 ^ 32) := by
    have none_ : (forwardFiles.length - kept).toUInt32 + (0 : Nat).toUInt32 =
        (forwardFiles.length - kept).toUInt32 :=
      add_zero _
    rw [none_]
    have wraps : ((forwardFiles.length - kept).toUInt32.toNat : Int) =
        (forwardFiles.length - kept : Int) % 2 ^ 32 := by
      simp
      omega
    rw [wraps]
    exact Int.emod_bmod ..
  have same : acceptLaunch (trimFiles forwardFiles launchFlags).1
    (trimFiles forwardFiles launchFlags).2 launchFlags =
      ⟨forwardFiles.take kept, Int.bmod (forwardFiles.length - kept) (2 ^ 32),
        launchFlags &&& DISABLE_ROTATION_HISTORY⟩ := by
    rw [acceptLaunch, files, dropped, capped, overrun, knownFlags_eq, count]
  rw [same]
  constructor
  · rfl
  · simp only [length]
  · simp only [length]
  · intro small
    have small_ : (forwardFiles.length : Int) - kept < 2 ^ 31 := by omega
    simp only [length]
    rw [Int.bmod_eq_of_le (by omega) (by omega)]
    omega

/-- The list in the frame of a launch is short enough to be framed. -/
theorem forwardedList_short (forwardFiles : List QString) (launchFlags : UInt32) :
    (writeStringList (trimFiles forwardFiles launchFlags).1).length < 2 ^ 32 - 1 := by
  obtain ⟨kept, -, -, -, -, fits⟩ := trimFiles_spec forwardFiles launchFlags
  rw [forwardPayload, length_serialise] at fits
  rw [writeStringList, List.length_append, length_writeU32]
  have cap : MAX_PAYLOAD_BYTES = 1048576 := rfl
  omega

/-- The frame of a launch, cut into reads in any way. -/
theorem ConnState.emitted_forwarded (forwardFiles : List QString) (launchFlags : UInt32)
    {reads : List Bytes}
    {trailing : Bytes} (cut : reads.flatten = forwardPayload forwardFiles launchFlags ++ trailing) :
    ∃ first chunk rest, reads = first ++ chunk :: rest ∧
      first.flatten.length < (forwardPayload forwardFiles launchFlags).length ∧
      (forwardPayload forwardFiles launchFlags).length ≤ (first ++ [chunk]).flatten.length ∧
      ConnState.initial.emitted first = [] ∧ ConnState.initial.emitted reads =
        if (first ++ [chunk]).flatten.length ≤ MAX_PAYLOAD_BYTES then
          [acceptLaunch (trimFiles forwardFiles launchFlags).1
            (trimFiles forwardFiles launchFlags).2 launchFlags]
        else [] := by
  obtain ⟨kept, -, -, -, -, fits⟩ := trimFiles_spec forwardFiles launchFlags
  have positive : 0 < (forwardPayload forwardFiles launchFlags).length := by
    rw [forwardPayload, length_serialise]
    omega
  exact ConnState.initial.emitted_frame rfl (forwardedList_short forwardFiles launchFlags) cut
    positive fits

/-- Wherever the reads are cut, a launch is delivered with the read that brings the last byte of its
frame: once and whole if that read stays within the cap, and never otherwise. -/
theorem ConnState.emitted_delivers (forwardFiles : List QString) (launchFlags : UInt32)
    (reads : List Bytes)
    (trailing : Bytes) (cut : reads.flatten = forwardPayload forwardFiles launchFlags ++ trailing) :
    ∃ first chunk rest, reads = first ++ chunk :: rest ∧
      first.flatten.length < (forwardPayload forwardFiles launchFlags).length ∧
      (forwardPayload forwardFiles launchFlags).length ≤ (first ++ [chunk]).flatten.length ∧
      ConnState.initial.emitted first = [] ∧
      ∃ launch, LaunchRequest.Delivers forwardFiles launchFlags launch ∧
        ConnState.initial.emitted reads =
        if (first ++ [chunk]).flatten.length ≤ MAX_PAYLOAD_BYTES then [launch] else [] := by
  obtain ⟨first, chunk, rest, same, early, late, silent, told⟩ :=
    ConnState.emitted_forwarded forwardFiles launchFlags cut
  exact ⟨first, chunk, rest, same, early, late, silent, _,
    acceptLaunch_delivers forwardFiles launchFlags, told⟩

/-- One file, in two reads, the first of which ends inside the magic. -/
theorem splitLaunch_delivered : ∃ first chunk rest, [(forwardPayload [some [97]] 1).take 6,
      (forwardPayload [some [97]] 1).drop 6 ++ [0]] = first ++ chunk :: rest ∧
      first.flatten.length < (forwardPayload [some [97]] 1).length ∧
      (forwardPayload [some [97]] 1).length ≤ (first ++ [chunk]).flatten.length ∧
      ConnState.initial.emitted first = [] ∧
      ∃ launch, LaunchRequest.Delivers [some [97]] 1 launch ∧
        ConnState.initial.emitted [(forwardPayload [some [97]] 1).take 6,
          (forwardPayload [some [97]] 1).drop 6 ++ [0]] =
          if (first ++ [chunk]).flatten.length ≤ MAX_PAYLOAD_BYTES then [launch] else [] :=
  ConnState.emitted_delivers [some [97]] 1 _ [0] (by
    rw [List.flatten_cons, List.flatten_singleton, ← List.append_assoc, List.take_append_drop])

/-- A frame with a cap of bytes behind it in the same read is dropped. -/
theorem ConnState.emitted_trailing (forwardFiles : List QString) (launchFlags : UInt32)
    {trailing : Bytes}
    (long : MAX_PAYLOAD_BYTES ≤ trailing.length) :
    ConnState.initial.emitted [forwardPayload forwardFiles launchFlags ++ trailing] = [] := by
  -- The trailing bytes alone pass the cap.
  have large : MAX_PAYLOAD_BYTES <
      (ConnState.initial.buffer ++
        (forwardPayload forwardFiles launchFlags ++ trailing)).length := by
    rw [List.length_append, List.length_append, forwardPayload, length_serialise]
    omega
  rw [ConnState.emitted, ConnState.tryDecode_oversized rfl large]
  rfl

/-- A frame in one read becomes its request. -/
theorem ConnState.emitted_whole (forwardFiles : List QString) (launchFlags : UInt32) :
    ConnState.initial.emitted [forwardPayload forwardFiles launchFlags] =
      [acceptLaunch (trimFiles forwardFiles launchFlags).1 (trimFiles forwardFiles launchFlags).2
        launchFlags] := by
  have cut : [forwardPayload forwardFiles launchFlags].flatten =
      forwardPayload forwardFiles launchFlags ++ [] := by
    rw [List.flatten_singleton, List.append_nil]
  obtain ⟨first, chunk, rest, same, early, late, silent, told⟩ :=
    emitted_forwarded forwardFiles launchFlags cut
  -- The frame is the whole read, and within the cap.
  have fits : (first ++ [chunk]).flatten.length ≤ MAX_PAYLOAD_BYTES := by
    obtain ⟨kept, -, -, -, -, fits⟩ := trimFiles_spec forwardFiles launchFlags
    have part : (first ++ [chunk]).flatten.length ≤
        (forwardPayload forwardFiles launchFlags).length := by
      have whole := congrArg (List.length ∘ List.flatten) same
      simp only [Function.comp_apply, List.flatten_singleton] at whole
      have parts : first ++ chunk :: rest = (first ++ [chunk]) ++ rest :=
        List.append_cons first chunk rest
      rw [whole, parts]
      simp only [List.flatten_append, List.length_append]
      exact Nat.le_add_right _ _
    exact part.trans fits
  rw [told, if_pos fits]

/-- From `2 ^ 31 + 256` files on, the count is no longer the number of files that were dropped. -/
theorem acceptLaunch_wraps {forwardFiles : List QString} (many : 2 ^ 31 + 256 ≤ forwardFiles.length)
    (launchFlags : UInt32) {launch : LaunchRequest}
    (delivers : launch.Delivers forwardFiles launchFlags)
    (few : launch.files.length ≤ MAX_FORWARDED_FILES) :
    (launch.files.length + launch.truncatedCount : Int) ≠ forwardFiles.length := by
  have small := Int.bmod_lt (x := (forwardFiles.length : Int) - launch.files.length) (m :=
    2 ^ 32) (by decide)
  rw [← delivers.count] at small
  have cap : MAX_FORWARDED_FILES = 256 := rfl
  omega

/-- A whole frame in one read with a megabyte behind it is dropped, and with `2 ^ 31 + 256` files
the count is not the number of files that were dropped. -/
theorem launch_notDelivered :
    (∃ forwardFiles launchFlags reads trailing,
      reads.flatten = forwardPayload forwardFiles launchFlags ++ trailing ∧
      ConnState.initial.emitted reads = []) ∧
    ∃ forwardFiles launchFlags reads launch,
      reads.flatten = forwardPayload forwardFiles launchFlags ∧
      ConnState.initial.emitted reads = [launch] ∧
      (launch.files.length + launch.truncatedCount : Int) ≠ forwardFiles.length := by
  -- Bytes behind a whole payload make the receiver drop the peer.
  constructor
  · obtain ⟨trailing, long⟩ : ∃ trailing : Bytes, trailing.length = MAX_PAYLOAD_BYTES :=
      ⟨_, List.length_replicate (n := MAX_PAYLOAD_BYTES) (a := 0)⟩
    exact ⟨[], 0, _, trailing, List.flatten_singleton, ConnState.emitted_trailing [] 0 long.ge⟩
  · -- The count of the files that were cut off passes 32 bits.
    obtain ⟨forwardFiles, many⟩ : ∃ forwardFiles : List QString,
      forwardFiles.length = 2 ^ 31 + 256 :=
      ⟨_, List.length_replicate (n := 2 ^ 31 + 256) (a := none)⟩
    refine ⟨forwardFiles, 0, _, _, List.flatten_singleton, ConnState.emitted_whole forwardFiles 0,
      ?_⟩
    refine acceptLaunch_wraps many.ge 0 (acceptLaunch_delivers forwardFiles 0) ?_
    rw [acceptLaunch, List.length_take]
    exact Nat.min_le_left _ _

end Receiver

end Loglib
