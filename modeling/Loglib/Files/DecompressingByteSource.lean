import Loglib.Files.StreamDecoder

/-! Compressed files: a file is decoded to a temporary one, and the first line of a bundle
is kept apart. -/

namespace Loglib

/-- The codecs of compressed files. -/
inductive Codec where
  | none
  | gzip
  | bzip2
  | xz
  | zstd
deriving DecidableEq

/-- `CodecName`. -/
def codecName : Codec → String
  | .none => "none"
  | .gzip => "gzip"
  | .bzip2 => "bzip2"
  | .xz => "xz"
  | .zstd => "zstd"

section Detection

/-- Bytes read to detect the codec. -/
def MAGIC_MAX_BYTES : Nat := 6

/-- The signature of gzip. -/
def GZIP_MAGIC : Bytes := [0x1f, 0x8b]

/-- The signature of bzip2. -/
def BZIP2_MAGIC : Bytes := bytes "BZh"

/-- The signature of xz. -/
def XZ_MAGIC : Bytes := [0xfd, 0x37, 0x7a, 0x58, 0x5a, 0x00]

/-- The signature of zstd. -/
def ZSTD_MAGIC : Bytes := [0x28, 0xb5, 0x2f, 0xfd]

/-- `StartsWith`. -/
def startsWith (haystack needle : Bytes) : Bool := needle.isPrefixOf haystack

/-- `IsZstdSkippableMagic`. -/
def isZstdSkippableMagic : Bytes → Bool
  | first :: second :: third :: fourth :: _ =>
    first &&& 0xF0 == 0x50 && second == 0x2A && third == 0x4D && fourth == 0x18
  | _ => false

/-- `DetectCodec`. -/
def detectCodec (magic : Bytes) : Codec :=
  if startsWith magic GZIP_MAGIC then .gzip
  else if startsWith magic BZIP2_MAGIC then .bzip2
  else if startsWith magic XZ_MAGIC then .xz
  else if startsWith magic ZSTD_MAGIC || isZstdSkippableMagic magic then .zstd
  else .none

end Detection

/-- The default cap of the decompressed output, 32 GiB. -/
@[irreducible] def DEFAULT_MAX_DECOMPRESSED_BYTES : Nat := 32 * 2 ^ 30

/-- The default cap of the discarded first line, 64 MiB. -/
@[irreducible] def DEFAULT_MAX_DISCARDED_FIRST_LINE_BYTES : Nat := 64 * 2 ^ 20

/-- The options of a source. A cap of zero is none. -/
structure DecompressOptions where
  maxDecompressedBytes : Nat := DEFAULT_MAX_DECOMPRESSED_BYTES
  discardFirstLine : Bool := false
  maxDiscardedFirstLineBytes : Nat := DEFAULT_MAX_DISCARDED_FIRST_LINE_BYTES

/-- What a source throws. -/
inductive DecompressError where
  | doesNotExist (path : String)
  | statFailed (path message : String)
  | emptyFile (path : String)
  | sniffOpenFailed (path : String)
  | notCompressed (path : String)
  | wrongCodec (path : String) (codec : Codec)
  | openFailed (path : String)
  | tempDirectoryFailed (message : String)
  | tempFileFailed (path : String) (errno : Nat)
  | noContext (path : String)
  | decodeError (path : String) (position : Nat) (name : String)
  | cancelled
  | firstLineTooLong (path : String)
  | shortWrite (path : String) (wrote size : Nat)
  | sizeCapExceeded (path : String) (cap size : Nat)
  | unexpectedEof (path : String) (position : Nat)
  | noLineTerminator (path : String)
  | flushFailed (path : String) (errno : Nat)
  | otherCodec (message : String)
deriving DecidableEq

namespace DecompressError

/-- The message. -/
def what : DecompressError → String
  | doesNotExist path => "File '" ++ path ++ "' does not exist"
  | statFailed path message => "Failed to stat '" ++ path ++ "': " ++ message
  | emptyFile path => "Cannot discard first line from empty file '" ++ path ++ "'"
  | sniffOpenFailed path => "Failed to open '" ++ path ++ "' for codec sniff"
  | notCompressed path =>
    "discardFirstLine requires a compressed input; '" ++ path ++ "' is not compressed"
  | wrongCodec path codec =>
    "discardFirstLine is only supported for zstd streams; '" ++ path ++ "' uses " ++ codecName codec
  | openFailed path => "Failed to open '" ++ path ++ "' for decompression"
  | tempDirectoryFailed message => "temp_directory_path() failed: " ++ message
  | tempFileFailed path errno =>
    "Failed to create temp file '" ++ path ++ "': errno " ++ toString errno
  | noContext path => "Failed to create zstd DCtx for '" ++ path ++ "'"
  | decodeError path position name =>
    "zstd decode error on '" ++ path ++ "' at input byte " ++ toString position ++ " (" ++
      name ++ ")"
  | cancelled => "decompression cancelled by StopToken"
  | firstLineTooLong path => "First decompressed line in '" ++ path ++ "' exceeds metadata limit"
  | shortWrite path wrote size =>
    "Short write to temp file '" ++ path ++ "' (" ++ toString wrote ++ " of " ++
      toString size ++ " bytes)"
  | sizeCapExceeded path cap size =>
    "Decompressed output for '" ++ path ++ "' exceeded the " ++ toString cap ++
      "-byte cap (would need at least " ++
      toString size ++ " bytes)"
  | unexpectedEof path position =>
    "Unexpected EOF in zstd stream '" ++ path ++ "' at input byte " ++ toString position
  | noLineTerminator path => "Compressed stream '" ++ path ++ "' has no metadata line terminator"
  | flushFailed path errno => "Failed to flush temp file '" ++ path ++ "': errno " ++ toString errno
  | otherCodec message => message

/-- An error of the codec or of a file operation, or a cancellation. -/
def isFault : DecompressError → Bool
  | statFailed .. | sniffOpenFailed .. | openFailed .. | tempDirectoryFailed .. | tempFileFailed
    .. | noContext .. | decodeError ..
  | cancelled | shortWrite .. | flushFailed .. | otherCodec .. => true
  | _ => false

end DecompressError

/-- What is around one decoding: the files, the options, and what the file operations and the stop
token do. -/
structure DecodeJob where
  sourcePath : String
  tempPath : String
  totalBytesIn : Nat
  options : DecompressOptions
  /-- Whether a stop is requested at the `n`-th poll. -/
  stopRequested : Nat → Bool
  /-- How many of its bytes the `n`-th `fwrite` takes. -/
  fwrite : Nat → Nat → Nat

/-- The state of a decoding. -/
structure DecodeState (Context : Type) where
  dctx : Context
  consumed : Nat
  /-- What the progress callback has been told. -/
  progress : List (Nat × Nat)
  firstLineComplete : Bool
  discardedFirstLine : Bytes
  /-- The bytes in the temporary file, and the number of calls that have put them there. -/
  written : Bytes
  writes : Nat
  decompressedSize : Nat
  lastResult : Nat

namespace DecodeState

variable {Context : Type} (job : DecodeJob) (state : DecodeState Context)

/-- `ObservePoll`. -/
def observePoll : DecodeState Context × Option DecompressError :=
  ({ state with progress := state.progress ++ [(state.consumed, job.totalBytesIn)] },
    if job.stopRequested state.progress.length then some .cancelled else none)

/-- `WriteAll`. -/
def writeAll (data : Bytes) : DecodeState Context × Option DecompressError :=
  if data = [] then (state, none)
  else
    let wrote := min (job.fwrite state.writes data.length) data.length
    ({ state with written := state.written ++ data.take wrote, writes := state.writes + 1 },
      if wrote ≠ data.length then some (.shortWrite job.tempPath wrote data.length) else none)

/-- `WriteOutput`. -/
def writeOutput (data : Bytes) : DecodeState Context × Option DecompressError :=
  match state.writeAll job data with
  | (state, some error) => (state, some error)
  | (state, none) =>
    -- The size is counted before it is compared, and the bytes are already in the file.
    let size := state.decompressedSize + data.length
    ({ state with decompressedSize := size },
      if job.options.maxDecompressedBytes ≠ 0 ∧ job.options.maxDecompressedBytes < size then
        some (.sizeCapExceeded job.sourcePath job.options.maxDecompressedBytes size)
      else none)

/-- One piece of output: what belongs to the first line is kept, and the rest is written. -/
def takePiece (produced : Bytes) : DecodeState Context × Option DecompressError :=
  if state.firstLineComplete then state.writeOutput job produced
  else
    -- Without a newline the position is that of the end.
    let prefixSize := produced.idxOf newline
    if job.options.maxDiscardedFirstLineBytes < state.discardedFirstLine.length + prefixSize then
      (state, some (.firstLineTooLong job.sourcePath))
    else
      let kept := { state with
        discardedFirstLine := state.discardedFirstLine ++ produced.take prefixSize }
      if prefixSize ≠ produced.length then
        { kept with firstLineComplete := true }.writeOutput job (produced.drop (prefixSize + 1))
      else kept.writeOutput job []

end DecodeState

section Decoding

variable (decoder : StreamDecoder) (job : DecodeJob)

/-- The calls of the decoder for one chunk of input. -/
def decodeChunk : (fuel : Nat) → Bytes → DecodeState decoder.Context → Option
    (DecodeState decoder.Context × Option DecompressError)
  | 0, _, _ => none
  | fuel + 1, input, state =>
    if input = [] then some (state, none)
    else
      -- The stop token and the progress callback are asked before each piece.
      match state.observePoll job with
      | (state, some error) => some (state, some error)
      | (state, none) =>
        match decoder.decompressStream state.dctx input with
        | (dctx, .error taken name) =>
          -- The error names the byte at which the decoder stopped.
          some ({ state with dctx },
            some (.decodeError job.sourcePath (state.consumed - input.length + taken) name))
        | (dctx, .done taken produced result) =>
          match { state with dctx }.takePiece job produced with
          | (state, some error) => some (state, some error)
          | (state, none) => decodeChunk fuel (input.drop taken) { state with lastResult := result }

/-- The reads of the file, until one of them is empty or the end of the file is reached. -/
def decodeChunks (fuel : Nat) :
    List Bytes → DecodeState decoder.Context → Option
      (DecodeState decoder.Context × Option DecompressError)
  | [], state => some (state, none)
  | chunk :: chunks, state =>
    if chunk = [] then some (state, none)
    else
      match decodeChunk decoder job fuel chunk
        { state with consumed := state.consumed + chunk.length } with
      -- The end of the chunk, and the next read.
      | some (state, none) => decodeChunks fuel chunks state
      | stopped => stopped

/-- `DecodeZstd`. -/
def decodeZstd (createsContext : Bool) (fuel : Nat) (reads : List Bytes) :
    Option (DecodeState decoder.Context × Option DecompressError) :=
  let state : DecodeState decoder.Context :=
    ⟨decoder.create, 0, [], !job.options.discardFirstLine, [], [], 0, 0, 0⟩
  if createsContext then
    match decodeChunks decoder job fuel reads state with
    | some (state, none) =>
      -- The end of the file inside a frame comes before a missing newline.
      if state.lastResult ≠ 0 then some (state, some (.unexpectedEof job.sourcePath state.consumed))
      else if state.firstLineComplete = false then
        some (state, some (.noLineTerminator job.sourcePath))
      else some (state, none)
    | stopped => stopped
  else some (state, some (.noContext job.sourcePath))

end Decoding

/-- The files, and what the operations on them do while a source is opened. -/
structure FileSurroundings where
  files : String → Option Bytes
  /-- The error of `file_size`. -/
  statError : Option String
  sniffOpens : Bool
  opens : Bool
  tempDirectory : Except String String
  /-- What makes the name of the `n`-th temporary file unique. -/
  uniqueDigits : Nat → String
  /-- The error of the `n`-th exclusive open, but for a collision. -/
  exclusiveError : Nat → Option Nat
  createsContext : Bool
  /-- What the reads of the compressed file return. -/
  reads : List Bytes
  stopRequested : Nat → Bool
  fwrite : Nat → Nat → Nat
  flushError : Option Nat
  /-- What the decoders of the other codecs write, and the error that they end with. -/
  decodeOther : Codec → Bytes × Option String
  removes : Bool

/-- `EEXIST`. -/
def TEMP_FILE_COLLISION_ERRNO : Nat := 17

/-- `MakeTempPath`. -/
def makeTempPath (directory digits : String) : String :=
  directory ++ "/slv-decompressed-" ++ digits ++ ".tmp"

/-- `OpenExclusiveWithRetry`, with the attempts that are left. -/
def openExclusiveWithRetry (surroundings : FileSurroundings) (lastPath : String) (lastErrno : Nat) :
    (attempts attempt : Nat) → Except DecompressError String
  | 0, _ => .error (.tempFileFailed lastPath lastErrno)
  | attempts + 1, attempt =>
    match surroundings.tempDirectory with
    | .error message => .error (.tempDirectoryFailed message)
    | .ok directory =>
      let candidate := makeTempPath directory (surroundings.uniqueDigits attempt)
      match surroundings.exclusiveError attempt with
      | some errno => .error (.tempFileFailed candidate errno)
      -- A name that is taken is tried again with other digits; any other failure ends the attempts.
      | none =>
        if (surroundings.files candidate).isSome then
          openExclusiveWithRetry surroundings candidate TEMP_FILE_COLLISION_ERRNO attempts
            (attempt + 1)
        else .ok candidate

/-- An opened file. -/
structure DecompressingByteSource where
  displayPath : String
  effectivePath : String
  codec : Codec
  compressedSize : Nat
  decompressedSize : Nat
  ownsTempFile : Bool
  discardedFirstLine : Bytes

namespace DecompressingByteSource

/-- A source with the files around it, and what its construction has thrown. -/
structure Construction where
  files : String → Option Bytes
  source : DecompressingByteSource
  thrown : Option DecompressError

/-- `ReleaseTempFile`. -/
def releaseTempFile (removes : Bool) (files : String → Option Bytes)
    (source : DecompressingByteSource) :
    (String → Option Bytes) × DecompressingByteSource :=
  (if source.ownsTempFile = true ∧ source.effectivePath ≠ "" ∧
    removes = true then Function.update files source.effectivePath none
    else files, { source with ownsTempFile := false })

/-- What the constructor catches it throws again, after the temporary file is released. -/
def Construction.rethrow (removes : Bool) (files : String → Option Bytes)
    (source : DecompressingByteSource)
    (error : DecompressError) : Construction :=
  let (files, source) := source.releaseTempFile removes files
  ⟨files, { source with effectivePath := source.displayPath }, some error⟩

/-- The end of a decoding: the temporary file has what has been written, once it is flushed. -/
def Construction.conclude (surroundings : FileSurroundings) (source : DecompressingByteSource)
    (written : Bytes)
    (thrown : Option DecompressError) : Construction :=
  let files := Function.update surroundings.files source.effectivePath (some written)
  match thrown with
  | some error => .rethrow surroundings.removes files source error
  | none =>
    match surroundings.flushError with
    | some errno =>
      .rethrow surroundings.removes files source (.flushFailed source.effectivePath errno)
    | none => ⟨files, source, none⟩

/-- The `try` block of the constructor. -/
def decode (decoder : StreamDecoder) (surroundings : FileSurroundings) (options : DecompressOptions)
    (fuel : Nat)
    (source : DecompressingByteSource) : Option Construction :=
  match openExclusiveWithRetry surroundings "" 0 8 0 with
  | .error error => some (.rethrow surroundings.removes surroundings.files source error)
  | .ok tempPath =>
    -- From here on the source owns the temporary file, and a failure removes it.
    let owner := { source with effectivePath := tempPath, ownsTempFile := true }
    if source.codec = .zstd then
      (decodeZstd decoder ⟨source.displayPath, tempPath, source.compressedSize, options,
        surroundings.stopRequested, surroundings.fwrite⟩
        surroundings.createsContext fuel surroundings.reads).map fun (state, thrown) =>
          .conclude surroundings
            { owner with
              decompressedSize := state.decompressedSize
              discardedFirstLine := state.discardedFirstLine } state.written thrown
    else
      let (written, message) := surroundings.decodeOther source.codec
      some (.conclude surroundings { owner with decompressedSize := written.length } written
        (message.map .otherCodec))

/-- The constructor. -/
def construct (decoder : StreamDecoder) (surroundings : FileSurroundings)
    (options : DecompressOptions) (fuel : Nat)
    (input : String) : Option Construction :=
  let source : DecompressingByteSource := ⟨input, input, .none, 0, 0, false, []⟩
  let throws (source : DecompressingByteSource) (error : DecompressError) : Option Construction :=
    some ⟨surroundings.files, source, some error⟩
  -- Plain and empty files are used as they are; the checks stand in the order of the source.
  match surroundings.files input with
  | none => throws source (.doesNotExist input)
  | some file =>
    match surroundings.statError with
    | some message => throws source (.statFailed input message)
    | none =>
      let source := { source with compressedSize := file.length }
      if file.length = 0 then
        if options.discardFirstLine then throws source (.emptyFile input)
          else some ⟨surroundings.files, source, none⟩
      else if surroundings.sniffOpens = false then throws source (.sniffOpenFailed input)
      else
        let source := { source with codec := detectCodec (file.take MAGIC_MAX_BYTES) }
        if source.codec = .none then
          if options.discardFirstLine then throws source (.notCompressed input)
            else some ⟨surroundings.files, source, none⟩
        else if options.discardFirstLine = true ∧
          source.codec ≠ .zstd then throws source (.wrongCodec input source.codec)
        else if surroundings.opens = false then throws source (.openFailed input)
        else source.decode decoder surroundings options fuel

end DecompressingByteSource

end Loglib
