import Loglib.Basic.DecimalText
import Loglib.Basic.SeparatedLines
import Loglib.Files.BundleHeader

/-! Session bundles: opening one splits its header line off, and the header line of a written one is
short enough for that. -/

namespace Loglib

section Construction

variable {decoder : StreamDecoder} {decoded : Bytes → Bytes} {completes : Bytes → Prop}
    {options : DecompressOptions} {file : Bytes}
  {surroundings : FileSurroundings} {fuel : Nat}

/-- Output that is taken: it has a first line within the limit, the rest is within the cap, and the
last frame is complete. -/
structure DecompressOptions.Takes (options : DecompressOptions) (plain : Bytes)
    (complete : Prop) : Prop where
  ended : options.Ended plain
  within : ¬options.Exceeds plain
  complete : complete

/-- A decoding that succeeds has split what the file stands for, and it fails for a fault or for
what is not to be taken. -/
theorem decodeZstd_splits (laws : decoder.Delivers decoded completes) (job : DecodeJob)
    {reads : List Bytes}
    (some_ : ∀ chunk ∈ reads, chunk ≠ []) (whole : reads.flatten = file) (present : file ≠ [])
    (enough : file.length + (decoded file).length < fuel) (createsContext : Bool) :
    ∃ state thrown, decodeZstd decoder job createsContext fuel reads = some (state, thrown) ∧
      (thrown = none → job.options.Takes (decoded file) (completes file) ∧
        state.discardedFirstLine = job.options.header
          (decoded file) ∧ state.written = job.options.remainder (decoded file) ∧
        state.decompressedSize = (job.options.remainder (decoded file)).length) ∧
      ∀ error, thrown = some error →
        (error.isFault = true ∧ ¬(createsContext = true ∧ job.Quiet ∧ decoder.Accepts file)) ∨
          ¬job.options.Takes (decoded file) (completes file) := by
  let start : DecodeState decoder.Context :=
    ⟨decoder.create, 0, [], !job.options.discardFirstLine, [], [], 0, 0, 0⟩
  have startSplits : start.Splits job.options (decoded []) := by
    rw [laws.nothing]
    refine ⟨?_, ?_, rfl, ?_, ?_⟩
    · show [] = job.options.header []
      unfold DecompressOptions.header
      split <;> rfl
    · show [] = job.options.remainder []
      unfold DecompressOptions.remainder
      split <;> rfl
    · show (!job.options.discardFirstLine) = true ↔ job.options.Ended []
      unfold DecompressOptions.Ended
      cases job.options.discardFirstLine <;> simp
    · unfold DecompressOptions.Exceeds DecompressOptions.header DecompressOptions.remainder
      split <;> simp [firstLine, afterFirstLine]
  have startReached : decoder.Reaches start.dctx [] (decoded []) := by
    rw [laws.nothing]
    exact .create
  obtain ⟨⟨state, thrown⟩, ended, decodes⟩ :=
    decodeChunks_decodes laws some_ startReached startSplits
    (by rw [List.nil_append]; exact whole) (fun none_ =>
      absurd (by rw [← whole, none_]; rfl) present) enough
  unfold decodeZstd
  -- Without a context nothing is decoded.
  cases createsContext with
  | false =>
    refine ⟨start, _, rfl, fun none_ => by (cases none_), fun error same => ?_⟩
    cases same
    exact .inl ⟨rfl, fun quiet => by (cases quiet.1)⟩
  | true =>
    dsimp only [start] at ended
    rw [if_pos rfl, ended]
    cases thrown with
    | some error =>
      refine ⟨state, some error, rfl, fun none_ => by (cases none_), fun other same => ?_⟩
      cases same
      exact Or.imp (fun noisy => ⟨noisy.1, fun quiet => noisy.2 quiet.2⟩) (fun exceeds takes =>
        takes.within exceeds) decodes
    | none =>
      obtain ⟨-, splits, reports⟩ := decodes
      dsimp only
      -- At the end of the file an incomplete frame is told first, and then a first line
      -- that has not ended.
      by_cases incomplete : state.lastResult ≠ 0
      · rw [if_pos incomplete]
        refine ⟨state, _, rfl, fun none_ =>
          by (cases none_), fun other same => .inr fun takes => ?_⟩
        exact incomplete (reports.mpr takes.complete)
      · rw [if_neg incomplete]
        by_cases open_ : state.firstLineComplete = false
        · rw [if_pos open_]
          refine ⟨state, _, rfl, fun none_ =>
            by (cases none_), fun other same => .inr fun takes => ?_⟩
          have complete := splits.complete.mpr takes.ended
          rw [open_] at complete
          cases complete
        · rw [if_neg open_]
          refine ⟨state, none, rfl, fun _ =>
            ⟨⟨splits.complete.mp (Bool.eq_true_of_not_eq_false open_), splits.within,
            reports.mp (not_not.mp incomplete)⟩, splits.header, splits.written, ?_⟩,
            fun error same => by (cases same)⟩
          rw [splits.size, splits.written]

/-- A temporary file can be made at one of some attempts. -/
def FileSurroundings.HasTempPath (surroundings : FileSurroundings)
    (attempts attempt : Nat) : Prop :=
  ∃ directory, surroundings.tempDirectory = .ok directory ∧ ∃ free, attempt ≤ free ∧
    free < attempt + attempts ∧
    (∀ before, attempt ≤ before → before ≤ free → surroundings.exclusiveError before = none) ∧
      surroundings.files (makeTempPath directory (surroundings.uniqueDigits free)) = none

/-- A path for a temporary file is not empty. -/
theorem makeTempPath_ne_empty (directory digits : String) : makeTempPath directory digits ≠ "" := by
  intro empty
  have lengths := congrArg String.length empty
  unfold makeTempPath at lengths
  -- The name has letters of its own.
  rw [String.length_append, String.length_append, String.length_append] at lengths
  exact absurd lengths (by simp)

/-- A temporary file is a new one, and where none can be made a file operation has failed. -/
theorem openExclusiveWithRetry_spec (surroundings : FileSurroundings) (attempts attempt : Nat)
    (lastPath : String) (lastErrno : Nat) :
    (∀ tempPath, openExclusiveWithRetry surroundings lastPath lastErrno attempts attempt =
      .ok tempPath →
      tempPath ≠ "" ∧ surroundings.files tempPath = none) ∧
    ∀ error, openExclusiveWithRetry surroundings lastPath lastErrno attempts attempt =
      .error error →
      error.isFault = true ∧ ¬surroundings.HasTempPath attempts attempt := by
  -- The induction is on the attempts that are left; each of them fails, collides or opens the file.
  induction attempts generalizing attempt lastPath lastErrno with
  | zero =>
    refine ⟨fun tempPath opened => by (cases opened), fun error failed => ?_⟩
    cases failed
    exact ⟨rfl, fun ⟨_, _, free, low, high, _⟩ => by omega⟩
  | succ attempts ih =>
    rw [openExclusiveWithRetry]
    cases directory_ : surroundings.tempDirectory with
    | error message =>
      refine ⟨fun tempPath opened => by (cases opened), fun error failed => ?_⟩
      cases failed
      exact ⟨rfl, fun ⟨directory, found, _⟩ => by rw [directory_] at found; cases found⟩
    | ok directory =>
      dsimp only
      cases failing : surroundings.exclusiveError attempt with
      | some errno =>
        refine ⟨fun tempPath opened => by (cases opened), fun error failed => ?_⟩
        cases failed
        refine ⟨rfl, fun ⟨_, _, free, low, _, quiet, _⟩ => ?_⟩
        rw [quiet attempt le_rfl low] at failing
        cases failing
      | none =>
        dsimp only
        by_cases collides : (surroundings.files
          (makeTempPath directory (surroundings.uniqueDigits attempt))).isSome = true
        · rw [if_pos collides]
          obtain ⟨opens, fails⟩ :=
            ih (attempt + 1) (makeTempPath directory (surroundings.uniqueDigits attempt))
              TEMP_FILE_COLLISION_ERRNO
          refine ⟨opens, fun error failed =>
            ⟨(fails error failed).1, fun ⟨other, found, free, low, high, quiet, new⟩ => ?_⟩⟩
          rw [directory_] at found
          cases found
          -- The free name is not that of this attempt.
          have later : attempt + 1 ≤ free := by
            rcases Nat.eq_or_lt_of_le low with rfl | later
            · rw [new] at collides
              cases collides
            · exact later
          exact (fails error failed).2
            ⟨directory, directory_, free, later,
              by omega, fun before from_ => quiet before (by omega), new⟩
        · rw [if_neg collides]
          refine ⟨fun tempPath opened => ?_, fun error failed => by (cases failed)⟩
          cases opened
          exact ⟨makeTempPath_ne_empty _ _, Option.not_isSome_iff_eq_none.mp collides⟩

namespace DecompressingByteSource

variable {source : DecompressingByteSource} {built : Construction}

/-- After an error no temporary file is left, if it can be removed, and the effective path is that
of the input again. -/
def Construction.Released (surroundings : FileSurroundings) (built : Construction) : Prop :=
  built.source.effectivePath = built.source.displayPath ∧ built.source.ownsTempFile = false ∧
    (surroundings.removes = true → built.files = surroundings.files)

/-- An error after the temporary file is made releases it. -/
theorem rethrow_released (surroundings : FileSurroundings) (owns : source.ownsTempFile = true)
    (named : source.effectivePath ≠ "")
    (new : surroundings.files source.effectivePath = none) (written : Bytes)
    (error : DecompressError) :
    (Construction.rethrow surroundings.removes
      (Function.update surroundings.files source.effectivePath (some written)) source
        error).Released
      surroundings := by
  refine ⟨rfl, rfl, fun removes => ?_⟩
  show (if source.ownsTempFile = true ∧ source.effectivePath ≠ "" ∧
    surroundings.removes = true then _ else _) = _
  -- The file that is removed was not there before.
  rw [if_pos ⟨owns, named, removes⟩, Function.update_idem, ← new, Function.update_eq_self]

/-- The end of a decoding keeps the temporary file, or releases it with the error that has
been thrown. -/
theorem conclude_spec (surroundings : FileSurroundings) (source : DecompressingByteSource)
    (owns : source.ownsTempFile = true) (named : source.effectivePath ≠ "")
    (new : surroundings.files source.effectivePath = none) (written : Bytes)
    (thrown : Option DecompressError) :
    (thrown = none ∧ surroundings.flushError = none ∧
      Construction.conclude surroundings source written thrown =
        ⟨Function.update surroundings.files source.effectivePath (some written), source, none⟩) ∨
      ∃ error, (Construction.conclude surroundings source written thrown).thrown = some error ∧
        (Construction.conclude surroundings source written thrown).Released surroundings ∧
        (thrown = some error ∨ (error.isFault = true ∧ surroundings.flushError ≠ none)) := by
  unfold Construction.conclude
  -- What has been thrown is thrown again, and without it the flush may fail.
  cases thrown with
  | some error =>
    exact .inr ⟨error, rfl, rethrow_released surroundings owns named new written error, .inl rfl⟩
  | none =>
    cases flushed : surroundings.flushError with
    | none => exact .inl ⟨rfl, rfl, rfl⟩
    | some errno =>
      exact .inr ⟨_, rfl, rethrow_released surroundings owns named new written _,
        .inr ⟨rfl, Option.some_ne_none _⟩⟩

/-- A source before its temporary file is made. -/
def Fresh (source : DecompressingByteSource) : Prop :=
  source.effectivePath = source.displayPath ∧ source.ownsTempFile = false

/-- Whatever a decoding throws, nothing of it is left. -/
theorem decode_released {error : DecompressError} (fresh : source.Fresh)
    (built_ : source.decode decoder surroundings options fuel = some built)
    (thrown : built.thrown = some error) :
    built.Released surroundings := by
  obtain ⟨opens, -⟩ := openExclusiveWithRetry_spec surroundings 8 0 "" 0
  unfold decode at built_
  cases opened : openExclusiveWithRetry surroundings "" 0 8 0 with
  | error failure =>
    rw [opened] at built_
    cases built_
    refine ⟨rfl, rfl, fun _ => ?_⟩
    show (if source.ownsTempFile = true ∧ _ then _ else surroundings.files) = _
    -- There is no temporary file to remove.
    rw [fresh.2, if_neg fun owns => by cases owns.1]
  | ok tempPath =>
    obtain ⟨named, new⟩ := opens tempPath opened
    -- Either codec ends alike, and with an error the file is released.
    have concluded {owner : DecompressingByteSource} (owns : owner.ownsTempFile = true)
      (path : owner.effectivePath = tempPath)
        {written : Bytes} {failure : Option DecompressError}
        (same : Construction.conclude surroundings owner written failure = built) :
          built.Released surroundings := by
      rcases conclude_spec surroundings owner owns (by rw [path]; exact named)
        (by rw [path]; exact new) written failure with
        ⟨-, -, kept⟩ | ⟨_, -, released, -⟩
      · rw [← same, kept] at thrown
        cases thrown
      · rwa [same] at released
    rw [opened] at built_
    dsimp only at built_
    split at built_
    · obtain ⟨⟨state, failure⟩, -, same⟩ := Option.map_eq_some_iff.mp built_
      exact concluded rfl rfl same
    · exact concluded rfl rfl (Option.some.inj built_)

/-- Whatever the constructor throws, nothing of it is left. -/
theorem construct_released {input : String} {error : DecompressError}
    (built_ : construct decoder surroundings options fuel input = some built)
    (thrown : built.thrown = some error) :
    built.Released surroundings := by
  -- Before a temporary file is made there is nothing to release.
  have early {source : DecompressingByteSource} (fresh : source.Fresh)
    {failure : Option DecompressError}
      (same : some ⟨surroundings.files, source, failure⟩ = some built) :
        built.Released surroundings := by
    cases same
    exact ⟨fresh.1, fresh.2, fun _ => rfl⟩
  unfold construct at built_
  dsimp only at built_
  cases found : surroundings.files input with
  | none =>
    rw [found] at built_
    exact early ⟨rfl, rfl⟩ built_
  | some file =>
    rw [found] at built_
    dsimp only at built_
    cases stat : surroundings.statError with
    | some message =>
      rw [stat] at built_
      exact early ⟨rfl, rfl⟩ built_
    | none =>
      rw [stat] at built_
      dsimp only at built_
      split at built_
      · split at built_ <;> exact early ⟨rfl, rfl⟩ built_
      split at built_
      · exact early ⟨rfl, rfl⟩ built_
      split at built_
      · split at built_ <;> exact early ⟨rfl, rfl⟩ built_
      split at built_
      · exact early ⟨rfl, rfl⟩ built_
      split at built_
      · exact early ⟨rfl, rfl⟩ built_
      · exact decode_released ⟨rfl, rfl⟩ built_ thrown

/-- No codec error, no failing file operation and no cancellation. -/
structure Quiet (surroundings : FileSurroundings) (decoder : StreamDecoder)
    (file : Bytes) : Prop where
  stat : surroundings.statError = none
  opens : surroundings.sniffOpens = true ∧ surroundings.opens = true
  tempPath : surroundings.HasTempPath 8 0
  context : surroundings.createsContext = true
  stops : ∀ poll, surroundings.stopRequested poll = false
  writes : ∀ write size, size ≤ surroundings.fwrite write size
  flush : surroundings.flushError = none
  codec : decoder.Accepts file

/-- A construction that succeeds has split what the file stands for, and it fails for a fault or for
what is not to be taken. -/
def Construction.Splits (surroundings : FileSurroundings) (options : DecompressOptions)
    (plain : Bytes) (complete quiet : Prop)
    (built : Construction) : Prop :=
  (built.thrown = none → options.Takes plain complete ∧
    built.source.discardedFirstLine = options.header plain ∧
    surroundings.files built.source.effectivePath = none ∧
    built.files = Function.update surroundings.files built.source.effectivePath
      (some (options.remainder plain)) ∧
    built.source.decompressedSize = (options.remainder plain).length) ∧
  ∀ error, built.thrown = some error → (error.isFault = true ∧ ¬quiet) ∨
    ¬options.Takes plain complete

/-- Decoding a zstd file splits what it stands for. -/
theorem decode_splits (laws : decoder.Delivers decoded completes)
    (some_ : ∀ chunk ∈ surroundings.reads, chunk ≠ [])
    (whole : surroundings.reads.flatten = file) (present : file ≠ [])
    (enough : file.length + (decoded file).length < fuel)
    (codec : source.codec = .zstd) :
    ∃ built, source.decode decoder surroundings options fuel = some built ∧
      built.Splits surroundings options (decoded file) (completes file)
        (Quiet surroundings decoder file) := by
  obtain ⟨opens, fails⟩ := openExclusiveWithRetry_spec surroundings 8 0 "" 0
  unfold decode
  cases opened : openExclusiveWithRetry surroundings "" 0 8 0 with
  | error failure =>
    -- A file operation has failed before anything was decoded.
    obtain ⟨fault, noisy⟩ := fails failure opened
    refine ⟨_, rfl, fun none_ => by (cases none_), fun error thrown => .inl ?_⟩
    cases thrown
    exact ⟨fault, fun quiet => noisy quiet.tempPath⟩
  | ok tempPath =>
    obtain ⟨named, new⟩ := opens tempPath opened
    obtain ⟨state, thrown, decoded_, taken, refused⟩ := decodeZstd_splits laws
      ⟨source.displayPath, tempPath, source.compressedSize, options, surroundings.stopRequested,
        surroundings.fwrite⟩
      some_ whole present enough surroundings.createsContext
    dsimp only
    rw [if_pos codec, decoded_, Option.map_some]
    refine ⟨_, rfl, ?_⟩
    -- What has been decoded is kept, or its error is thrown again.
    rcases conclude_spec surroundings { source with
        effectivePath := tempPath
        ownsTempFile := true
        decompressedSize := state.decompressedSize
        discardedFirstLine := state.discardedFirstLine } rfl named new state.written thrown with
      ⟨none_, -, kept⟩ | ⟨failure, failed, -, cause⟩
    · obtain ⟨takes, header, written, size⟩ := taken none_
      dsimp only at kept ⊢
      rw [kept]
      refine ⟨fun _ => ⟨takes, header, new, ?_, size⟩, fun error same => by (cases same)⟩
      rw [written]
    · refine ⟨fun none_ => ?_, fun error same => ?_⟩
      · dsimp only at failed none_
        rw [failed] at none_
        cases none_
      · dsimp only at failed same
        rw [failed] at same
        cases same
        rcases cause with stopped | ⟨fault, noisy⟩
        · refine (refused failure stopped).imp_left fun faulty =>
            ⟨faulty.1, fun quiet => faulty.2 ?_⟩
          exact ⟨quiet.context, ⟨quiet.stops, quiet.writes⟩, quiet.codec⟩
        · exact .inl ⟨fault, fun quiet => noisy quiet.flush⟩

/-- Opening a zstd file splits what it stands for. -/
theorem construct_splits (laws : decoder.Delivers decoded completes)
    (some_ : ∀ chunk ∈ surroundings.reads, chunk ≠ [])
    (whole : surroundings.reads.flatten = file)
    (enough : file.length + (decoded file).length < fuel) {input : String}
    (found : surroundings.files input = some file)
    (codec : detectCodec (file.take MAGIC_MAX_BYTES) = .zstd) :
    ∃ built, construct decoder surroundings options fuel input = some built ∧
      built.Splits surroundings options (decoded file) (completes file)
        (Quiet surroundings decoder file) := by
  have present : file ≠ [] := by
    rintro rfl
    cases codec
  -- What fails before the decoding is a failing file operation.
  have early {source : DecompressingByteSource} {error : DecompressError}
    (fault : error.isFault = true)
      (noisy : ¬Quiet surroundings decoder file) :
      (⟨surroundings.files, source, some error⟩ : Construction).Splits surroundings options
        (decoded file) (completes file)
        (Quiet surroundings decoder file) :=
    ⟨fun none_ => by (cases none_), fun other same => by cases same; exact .inl ⟨fault, noisy⟩⟩
  unfold construct
  dsimp only
  rw [found]
  dsimp only
  cases stat : surroundings.statError with
  | some message => exact ⟨_, rfl, early rfl fun quiet => by rw [quiet.stat] at stat; cases stat⟩
  | none =>
    dsimp only
    rw [if_neg fun empty => present (List.length_eq_zero_iff.mp empty)]
    by_cases sniffs : surroundings.sniffOpens = false
    · rw [if_pos sniffs]
      exact ⟨_, rfl, early rfl fun quiet => by rw [quiet.opens.1] at sniffs; cases sniffs⟩
    rw [if_neg sniffs, codec, if_neg (by decide), if_neg fun wrong => wrong.2 rfl]
    by_cases opens : surroundings.opens = false
    · rw [if_pos opens]
      exact ⟨_, rfl, early rfl fun quiet => by rw [quiet.opens.2] at opens; cases opens⟩
    rw [if_neg opens]
    exact decode_splits laws some_ whole present enough rfl

end DecompressingByteSource

end Construction

section Writer

/-- The version of the bundles that are written. -/
def SESSION_BUNDLE_FORMAT_VERSION : Nat := 1

/-- The most rows of a bundle. -/
@[irreducible] def SESSION_BUNDLE_MAX_ROWS : Nat := 1000000000

/-- The most bytes of the header line with its newline. -/
@[irreducible] def MAX_METADATA_BYTES : Nat := 64 * 1024 * 1024

/-- The most bytes of a row. -/
@[irreducible] def MAX_RECORD_BYTES : Nat := 256 * 1024 * 1024

/-- The header line of a bundle, without its newline. -/
def bundleMetadata (configJson : Bytes) (rowCount : Nat) : Bytes :=
  bytes "\x7b\"__slv_bundle__\":\x7b\"formatVersion\":" ++ decimal SESSION_BUNDLE_FORMAT_VERSION ++
    bytes ",\"rowCount\":" ++
    decimal rowCount ++ bytes ",\"configuration\":" ++ configJson ++ bytes "\x7d\x7d"

/-- `WriteSessionBundle`: what is compressed, from the serialized configuration and the
serialized rows. -/
def writeSessionBundle (configJson : Bytes) (rows : List Bytes) : Except String Bytes :=
  let metadata := bundleMetadata configJson rows.length ++ [newline]
  if SESSION_BUNDLE_MAX_ROWS < rows.length then
    .error ("Session bundle row count exceeds the " ++ toString SESSION_BUNDLE_MAX_ROWS ++
      "-row limit")
  else if MAX_METADATA_BYTES < metadata.length then
    .error "Session bundle metadata exceeds the 64 MiB limit"
  else if rows.any (MAX_RECORD_BYTES < ·.length) then
    .error "Session bundle row exceeds the 256 MiB limit"
  else .ok (metadata ++ joinLines newline rows)

variable {configJson stream : Bytes} {rows : List Bytes}

/-- A bundle that is written has a short header line. -/
theorem writeSessionBundle_ok (written : writeSessionBundle configJson rows = .ok stream) :
    stream = bundleMetadata configJson rows.length ++ newline :: joinLines newline rows ∧
      (bundleMetadata configJson rows.length).length < MAX_METADATA_BYTES := by
  unfold writeSessionBundle at written
  dsimp only at written
  split at written
  · cases written
  split at written
  · cases written
  split at written
  · cases written
  cases written
  -- The limit counts the newline along.
  rename_i short _
  rw [List.length_append, List.length_singleton] at short
  exact ⟨by rw [List.append_assoc, List.singleton_append], by omega⟩

/-- A first line is no longer than what stands before any newline. -/
theorem length_firstLine_le (front back : Bytes) :
    (firstLine (front ++ newline :: back)).length ≤ front.length := by
  -- A newline in front ends the line earlier.
  by_cases ended : newline ∈ front
  · obtain ⟨line, rest, unended, rfl⟩ := eq_append_newline ended
    rw [List.append_assoc, List.cons_append, firstLine_append_newline unended, List.length_append]
    exact Nat.le_add_right _ _
  · rw [firstLine_append_newline ended]

/-- What reads a bundle takes a header line of every length that is written. -/
theorem length_header_le (written : writeSessionBundle configJson rows = .ok stream) :
    newline ∈ stream ∧
      (firstLine stream).length ≤
        ({ discardFirstLine := true } : DecompressOptions).maxDiscardedFirstLineBytes := by
  obtain ⟨rfl, short⟩ := writeSessionBundle_ok written
  refine ⟨List.mem_append_right _ List.mem_cons_self, (length_firstLine_le _ _).trans ?_⟩
  -- The writer and the reader have the same limit.
  have same : MAX_METADATA_BYTES = DEFAULT_MAX_DISCARDED_FIRST_LINE_BYTES := by
    unfold MAX_METADATA_BYTES DEFAULT_MAX_DISCARDED_FIRST_LINE_BYTES
    norm_num
  show _ ≤ DEFAULT_MAX_DISCARDED_FIRST_LINE_BYTES
  omega

/-- A configuration on one line comes back in the header line, and the rows follow it. -/
theorem writeSessionBundle_splits (written : writeSessionBundle configJson rows = .ok stream)
    (oneLine : newline ∉ configJson) :
    firstLine stream = bundleMetadata configJson rows.length ∧
      afterFirstLine stream = joinLines newline rows := by
  obtain ⟨rfl, -⟩ := writeSessionBundle_ok written
  -- Neither the numbers nor the fixed texts have a line end.
  have digits (value : Nat) : newline ∉ decimal value := fun listed => by
    have digit := isDecimalDigit_of_mem_decimal listed
    exact absurd digit (by decide)
  have unended : newline ∉ bundleMetadata configJson rows.length := by
    unfold bundleMetadata
    simp only [List.mem_append, not_or]
    exact ⟨⟨⟨⟨⟨⟨by decide, digits _⟩, by decide⟩, digits _⟩, by decide⟩, oneLine⟩, by decide⟩
  exact ⟨firstLine_append_newline unended, afterFirstLine_append_newline unended⟩

end Writer

section FirstLine

variable {decoder : StreamDecoder} {decoded : Bytes → Bytes} {completes : Bytes → Prop}
    {options : DecompressOptions} {plain : Bytes}

/-- Decoded output that is not to be taken: no first line, one beyond the limit, too much behind it,
or an incomplete frame. -/
def DecompressOptions.Refuses (options : DecompressOptions) (plain : Bytes)
    (complete : Prop) : Prop :=
  newline ∉ plain ∨ options.maxDiscardedFirstLineBytes < (firstLine plain).length ∨
    (options.maxDecompressedBytes ≠ 0 ∧
      options.maxDecompressedBytes < (afterFirstLine plain).length) ∨ ¬complete

/-- Output is refused exactly if it is not taken. -/
theorem DecompressOptions.not_takes_iff (discards : options.discardFirstLine = true)
    {complete : Prop} :
    ¬options.Takes plain complete ↔ options.Refuses plain complete := by
  -- What is taken has its line end, fits, and is complete.
  have same : options.Takes plain complete ↔
      (newline ∈ plain ∧ ¬options.Exceeds plain ∧ complete) :=
    ⟨fun takes => ⟨takes.ended discards, takes.within, takes.complete⟩, fun takes =>
      ⟨fun _ => takes.1, takes.2.1, takes.2.2⟩⟩
  rw [same]
  unfold Refuses Exceeds header remainder
  rw [if_pos discards, if_pos discards]
  tauto

/-- Opening a bundle puts the bytes before the first newline of what it stands for into the
discarded line and the bytes after it into the temporary file, or it fails; it fails exactly if the
output is refused, but for faults, and leaves nothing behind then. The header line of a bundle that
is written is within the limit. -/
theorem construct_splitsFirstLine (laws : decoder.Delivers decoded completes)
    (discards : options.discardFirstLine = true) :
    (∀ (surroundings : FileSurroundings) (input : String) (file : Bytes) (fuel : Nat),
      surroundings.files input = some file → detectCodec (file.take MAGIC_MAX_BYTES) = .zstd →
      surroundings.reads.flatten = file → (∀ chunk ∈ surroundings.reads, chunk ≠ []) →
      file.length + (decoded file).length < fuel →
      ∃ built, DecompressingByteSource.construct decoder surroundings options fuel input =
        some built ∧
        (built.thrown = none →
          ¬options.Refuses (decoded file)
            (completes file) ∧ built.source.discardedFirstLine = firstLine (decoded file) ∧
          surroundings.files built.source.effectivePath = none ∧
          built.files = Function.update surroundings.files built.source.effectivePath
            (some (afterFirstLine (decoded file))) ∧
          built.source.decompressedSize = (afterFirstLine (decoded file)).length) ∧
        (∀ error, built.thrown = some error → error.isFault = true ∨
          options.Refuses (decoded file) (completes file)) ∧
        (DecompressingByteSource.Quiet surroundings decoder file →
          (built.thrown ≠ none ↔ options.Refuses (decoded file) (completes file)))) ∧
    (∀ (surroundings : FileSurroundings) (input : String) (fuel : Nat)
      (built : DecompressingByteSource.Construction),
      DecompressingByteSource.construct decoder surroundings options fuel input = some built →
        built.thrown ≠ none →
        built.source.effectivePath = built.source.displayPath ∧ (surroundings.removes = true →
          built.files = surroundings.files)) ∧
    ∀ configJson rows stream, writeSessionBundle configJson rows = .ok stream →
      newline ∈ stream ∧ (firstLine stream).length ≤
        ({ discardFirstLine := true } : DecompressOptions).maxDiscardedFirstLineBytes := by
  refine ⟨fun surroundings input file fuel found codec whole some_ enough => ?_,
    fun surroundings input fuel built built_ thrown => ?_,
    fun configJson rows stream written => length_header_le written⟩
  · obtain ⟨built, built_, takes, refuses⟩ :=
      DecompressingByteSource.construct_splits laws some_ whole enough found codec
    -- The line to be discarded is the first one, and what is written is behind it.
    have header : options.header (decoded file) = firstLine (decoded file) := if_pos discards
    have remainder : options.remainder (decoded file) = afterFirstLine (decoded file) :=
      if_pos discards
    rw [header, remainder] at takes
    simp only [DecompressOptions.not_takes_iff discards] at refuses
    have taken (none_ : built.thrown = none) : ¬options.Refuses (decoded file) (completes file) :=
      fun refused =>
      (DecompressOptions.not_takes_iff discards).mpr refused (takes none_).1
    refine ⟨built, built_, fun none_ => ⟨taken none_, (takes none_).2⟩, fun error thrown =>
      (refuses error thrown).imp_left And.left,
      fun quiet => ⟨fun thrown => ?_, fun refused none_ => taken none_ refused⟩⟩
    obtain ⟨error, same⟩ := Option.ne_none_iff_exists'.mp thrown
    exact (refuses error same).resolve_left fun faulty => faulty.2 quiet
  · obtain ⟨error, same⟩ := Option.ne_none_iff_exists'.mp thrown
    obtain ⟨path, -, files⟩ := DecompressingByteSource.construct_released built_ same
    exact ⟨path, files⟩

end FirstLine

section RawBlock

/-- The content of a frame of one raw block, behind nine bytes of headers. -/
def rawBlockContent (consumed : Bytes) : Bytes := (consumed.drop 9).take 3

/-- A decoder for a frame of one raw block of three bytes: it remembers what it has consumed. -/
def rawBlockDecoder : StreamDecoder where
  Context := Bytes
  create := []
  decompressStream consumed input :=
    if 12 < (consumed ++ input).length then (consumed, .error 0 "Unknown frame descriptor")
    else (consumed ++ input,
      .done input.length ((rawBlockContent (consumed ++ input)).drop
        (rawBlockContent consumed).length)
      (12 - (consumed ++ input).length))

variable {context next consumed delivered input produced : Bytes} {taken result : Nat}

/-- More of the frame has more of its content. -/
theorem rawBlockContent_grows (consumed input : Bytes) :
    rawBlockContent consumed <+: rawBlockContent (consumed ++ input) :=
  ((List.prefix_append consumed input).drop 9).take 3

/-- What a call comes to. -/
theorem rawBlockDecoder_call
    (called : rawBlockDecoder.decompressStream context input = (next,
    .done taken produced result)) :
    next = context ++ input ∧ taken = input.length ∧
      rawBlockContent context ++ produced = rawBlockContent (context ++ input) ∧
      (result = 0 ↔ (context ++ input).length = 12) := by
  -- A call takes all of its input.
  unfold rawBlockDecoder at called
  dsimp only at called
  split at called
  · cases called
  · rename_i inside
    cases called
    exact ⟨rfl, rfl, List.prefix_iff_eq_append.mp (rawBlockContent_grows context input), by omega⟩

/-- The decoder remembers what it has consumed, and has delivered its content. -/
theorem rawBlockDecoder_reaches {context : rawBlockDecoder.Context}
    (reached : rawBlockDecoder.Reaches context consumed delivered) :
    context = consumed ∧ delivered = rawBlockContent consumed := by
  -- The context is what has been taken so far.
  induction reached with
  | create => exact ⟨rfl, rfl⟩
  | call _ _ called ih =>
    obtain ⟨rfl, rfl⟩ := ih
    obtain ⟨rfl, rfl, content, -⟩ := rawBlockDecoder_call called
    rw [List.take_length]
    exact ⟨rfl, content⟩

/-- The decoder delivers the content of the frame. -/
theorem rawBlockDecoder_delivers :
    rawBlockDecoder.Delivers rawBlockContent fun consumed => consumed.length = 12 := by
  -- A call takes all of its input and produces what the content grows by.
  have call {consumed delivered input produced : Bytes} {taken result : Nat}
      (calls : rawBlockDecoder.Calls consumed delivered input taken produced result) :
      taken = input.length ∧ delivered ++ produced = rawBlockContent (consumed ++ input) ∧
        (result = 0 ↔ (consumed ++ input).length = 12) ∧ input ≠ [] := by
    obtain ⟨some_, context, next, reached, called⟩ := calls
    obtain ⟨rfl, rfl⟩ := rawBlockDecoder_reaches reached
    obtain ⟨-, whole, content, reports⟩ := rawBlockDecoder_call called
    exact ⟨whole, content, reports, some_⟩
  refine ⟨rfl, rawBlockContent_grows, fun calls => ?_, fun calls => ?_, fun calls => ?_,
    fun calls _ => (call calls).2.1, fun calls => ?_⟩
  · exact (call calls).1.le
  · obtain ⟨rfl, -, -, some_⟩ := call calls
    exact .inl (List.length_pos_iff.mpr some_)
  · obtain ⟨rfl, content, -⟩ := call calls
    rw [List.take_length, content]
  · obtain ⟨rfl, content, reports, -⟩ := call calls
    rw [List.take_length, content]
    exact ⟨fun zero => ⟨rfl, reports.mp zero⟩, fun complete => reports.mpr complete.2⟩

/-- A frame with the content of two lines, read in two pieces: the first line is kept apart, and
nothing fails. -/
theorem construct_splitsFirstLine_twoLines :
    ∃ (surroundings : FileSurroundings) (built : DecompressingByteSource.Construction),
      surroundings.reads = [[0x28, 0xb5, 0x2f, 0xfd, 0x20, 0x03, 0x19, 0x00, 0x00, 0x68],
        [0x0a, 0x72]] ∧
      DecompressingByteSource.construct rawBlockDecoder surroundings
        { discardFirstLine := true } 20 "in.slv" = some built ∧
      built.thrown = none ∧ built.source.discardedFirstLine = bytes "h" ∧
      built.files built.source.effectivePath = some (bytes "r") ∧
        built.source.decompressedSize = 1 := by
  let file : Bytes := [0x28, 0xb5, 0x2f, 0xfd, 0x20, 0x03, 0x19, 0x00, 0x00, 0x68, 0x0a, 0x72]
  let surroundings : FileSurroundings :=
    { files := fun path => if path = "in.slv" then some file else none
      statError := none
      sniffOpens := true
      opens := true
      tempDirectory := .ok "/tmp"
      uniqueDigits := fun _ => "00"
      exclusiveError := fun _ => none
      createsContext := true
      reads := [[0x28, 0xb5, 0x2f, 0xfd, 0x20, 0x03, 0x19, 0x00, 0x00, 0x68], [0x0a, 0x72]]
      stopRequested := fun _ => false
      fwrite := fun _ size => size
      flushError := none
      decodeOther := fun _ => ([], none)
      removes := true }
  have content : rawBlockContent file = bytes "h\nr" := by decide
  have discards : ({ discardFirstLine := true } : DecompressOptions).discardFirstLine = true := rfl
  obtain ⟨opens, -, -⟩ := construct_splitsFirstLine rawBlockDecoder_delivers discards
  obtain ⟨built, built_, taken, -, fails⟩ :=
    opens surroundings "in.slv" file 20 rfl (by decide) (by decide) (by decide) (by decide)
  -- The file is no longer than its frame, so no call fails.
  have accepts : rawBlockDecoder.Accepts file := by
    intro context consumed delivered input next size name reached part failed
    obtain ⟨rfl, -⟩ := rawBlockDecoder_reaches reached
    unfold rawBlockDecoder at failed
    dsimp only at failed
    split at failed
    · rename_i beyond
      exact absurd part.length_le (Nat.not_le.mpr beyond)
    · cases failed
  have other : makeTempPath "/tmp" "00" ≠ "in.slv" := by decide
  have quiet : DecompressingByteSource.Quiet surroundings rawBlockDecoder file :=
    ⟨rfl, ⟨rfl, rfl⟩, ⟨"/tmp", rfl, 0, le_rfl,
      by decide, fun _ _ _ => rfl, if_neg (t := some file) other⟩, rfl, fun _ => rfl, fun _ _ =>
        le_rfl, rfl,
      accepts⟩
  -- The output has a newline, is short, and its frame is complete.
  have kept : ¬({ discardFirstLine := true } : DecompressOptions).Refuses (rawBlockContent file)
      (file.length = 12) := by
    rw [content]
    unfold DecompressOptions.Refuses DEFAULT_MAX_DECOMPRESSED_BYTES
      DEFAULT_MAX_DISCARDED_FIRST_LINE_BYTES
    decide
  have none_ : built.thrown = none := by
    by_contra thrown
    exact kept ((fails quiet).mp thrown)
  obtain ⟨-, header, -, files, size⟩ := taken none_
  rw [content] at header files size
  refine ⟨surroundings, built, rfl, built_, none_, header, ?_, size⟩
  rw [files, Function.update_self]
  decide

end RawBlock

end Loglib
