import Loglib.Basic.Pattern
import Loglib.Files.FilePath
import Loglib.Numeric.CivilDate

/-! The rotated files beside a log file: how their names are recognized, and their order. -/

namespace Loglib

/-- `NUMBERED_RANK_BASE`. -/
def numberedRankBase : Int := 1000000000

/-- `MAX_ACCEPTED_NUMBERED_SUFFIX`. -/
def maxAcceptedNumberedSuffix : Nat := 999999999

/-- `MAX_ENUMERATED_DIRECTORY_ENTRIES`. -/
def maxEnumeratedDirectoryEntries : Nat := 4096

/-- The days of the years before this one, from the year 1 on. -/
def daysBeforeYear (year : Nat) : Nat :=
  365 * (year - 1) + (year - 1) / 4 - (year - 1) / 100 + (year - 1) / 400

/-- `DaysSinceEpoch`, or none where there is no such date. -/
def daysSinceEpoch (year month day : Nat) : Option Int :=
  if year < 1900 ∨ 9999 < year ∨ month < 1 ∨ 12 < month ∨ day < 1 ∨ 31 < day then none
  else if daysInMonth year month < day then none
  else
    let daysBeforeMonth := ((List.range month).map (daysInMonth year)).sum
    some ((daysBeforeYear year + daysBeforeMonth + day - 1 : Nat) - (daysBeforeYear 1970 : Int))

/-- `RotatedFile::Origin`. -/
inductive Origin where
  | primary
  | numberedSuffix
  | datedSuffix
  | callerListed
deriving DecidableEq, Repr

/-- `Candidate`. -/
structure Candidate where
  path : FilePath
  origin : Origin
  sortRank : Int
deriving DecidableEq, Repr

/-- `[0-9]` and `\d`. -/
def isDigit (byte : Byte) : Bool := ascii '0' ≤ byte && byte ≤ ascii '9'

/-- `[A-Za-z0-9]`. -/
def isAlphanumeric (byte : Byte) : Bool :=
  isDigit byte || ascii 'a' ≤ foldAscii byte && foldAscii byte ≤ ascii 'z'

/-- `.` of an expression, which stops at the end of a line. -/
def isDot (byte : Byte) : Bool := byte ≠ ascii '\n' && byte ≠ ascii '\r'

/-- `[-._]`. -/
def isDateSeparator (byte : Byte) : Bool := byte = ascii '-' || byte = ascii '.' || byte = ascii '_'

/-- `(?:\.(?:gz|bz2|xz|zst))?`. -/
def compressTail : Pattern Byte :=
  .optional (.seq (.literal (bytes "."))
    (.alt (.literal (bytes "gz")) (.alt (.literal (bytes "bz2")) (.alt (.literal (bytes "xz"))
      (.literal (bytes "zst"))))))

/-- `\d` so many times. -/
def digits (count : Nat) : Pattern Byte := .sequence (List.replicate count (.item isDigit))

/-- `(\d{4})-(\d{2})-(\d{2})`, with the groups that the caller asks for. -/
def date (group : Pattern Byte → Pattern Byte) : Pattern Byte :=
  .sequence [group (digits 4), .literal (bytes "-"), group (digits 2), .literal (bytes "-"),
    group (digits 2)]

/-- `SiblingMatchers`. -/
structure SiblingMatchers where
  numbered : Pattern Byte
  datedSuffix : Pattern Byte
  stemDated : Option (Pattern Byte)

/-- `BuildMatchers`. The names are taken literally, which is what the escaping is for. -/
def buildMatchers (primaryBasename primaryStem primaryExt : Bytes) : SiblingMatchers where
  numbered := .sequence [.literal primaryBasename, .literal (bytes "."),
    .group (.many1 isDigit true), compressTail]
  datedSuffix := .sequence [.literal primaryBasename, .item isDateSeparator, date .group,
    compressTail]
  stemDated :=
    if primaryExt ≠ [] ∧ primaryStem ≠ [] then
      some (.sequence [.literal primaryStem, .item isDateSeparator, date .group,
        .literal (bytes "."),
        .literal primaryExt, compressTail])
    else none

/-- The value of decimal digits. -/
def decimalValue (text : Bytes) : Nat :=
  text.foldl (fun value byte => 10 * value + (byte.toNat - 48)) 0

/-- Whether `from_chars` reads a suffix in range. What overflows it is above the range as well. -/
def acceptedSuffix (text : Bytes) : Bool :=
  1 ≤ decimalValue text && decimalValue text ≤ maxAcceptedNumberedSuffix

/-- The groups of a date as a day. -/
def datedRank : List Bytes → Option Int
  | [year, month, day] => daysSinceEpoch (decimalValue year) (decimalValue month) (decimalValue day)
  | _ => none

/-- The numbered form of `ClassifySibling`. -/
def numberedRank : List Bytes → Option Int
  | [suffix] =>
    if acceptedSuffix suffix then some (numberedRankBase - decimalValue suffix) else none
  | _ => none

/-- `ClassifySibling`: the first form whose number or date is in range. -/
def classifySibling (siblingPath : FilePath) (matchers : SiblingMatchers) : Option Candidate :=
  let filename := siblingPath.filename
  let numbered := ((matchers.numbered.regexMatch filename).bind numberedRank).map
    (Candidate.mk siblingPath .numberedSuffix)
  let datedSuffix := ((matchers.datedSuffix.regexMatch filename).bind datedRank).map
    (Candidate.mk siblingPath .datedSuffix)
  let stemDated := ((matchers.stemDated.bind (·.regexMatch filename)).bind datedRank).map
    (Candidate.mk siblingPath .datedSuffix)
  numbered <|> datedSuffix <|> stemDated

/-- A candidate keeps the path it was made for. -/
theorem classifySibling_path {siblingPath : FilePath} {matchers : SiblingMatchers}
    {candidate : Candidate}
    (accepted : classifySibling siblingPath matchers = some candidate) :
    candidate.path = siblingPath := by
  have made {origin : Origin} {rank : Option Int}
      (found : rank.map (Candidate.mk siblingPath origin) = some candidate) : candidate.path =
        siblingPath := by
    obtain ⟨value, -, rfl⟩ := Option.map_eq_some_iff.mp found
    rfl
  simp only [classifySibling, Option.orElse_eq_orElse, Option.orElse_eq_or,
    Option.or_eq_some_iff] at accepted
  -- Whichever matcher accepts, it makes the candidate of this path.
  rcases accepted with numbered | ⟨-, datedSuffix | ⟨-, stemDated⟩⟩
  · exact made numbered
  · exact made datedSuffix
  · exact made stemDated

/-- `SplitStemExt`. A dot in front of everything is no separator. -/
def splitStemExt (primary : FilePath) : Bytes × Bytes :=
  let filename := primary.filename
  let behind := (filename.reverse.takeWhile (· ≠ ascii '.')).length
  let dot := filename.length - 1 - behind
  if behind = filename.length ∨ dot = 0 then (filename, [])
    else (filename.take dot, filename.drop (dot + 1))

/-- `NUMBERED_TAILING`. -/
def numberedTailing : Pattern Byte :=
  .sequence [.group (.many1 isDot false), .literal (bytes "."), .group (.many1 isDigit true),
    compressTail]

/-- `DATED_TAILING`. -/
def datedTailing : Pattern Byte :=
  .sequence [.group (.many1 isDot false), .item isDateSeparator, date id, compressTail]

/-- `DATED_INFIX`. -/
def datedInfix : Pattern Byte :=
  .sequence [.group (.many1 isDot false), .item isDateSeparator, date id, .literal (bytes "."),
    .group (.many1 isAlphanumeric true), compressTail]

/-- The stem in front of a numbered suffix in range. -/
def numberedStem : List Bytes → Option Bytes
  | [stem, suffix] => if acceptedSuffix suffix then some stem else none
  | _ => none

/-- The stem in front of a dated suffix, whatever the date. -/
def datedStem : List Bytes → Option Bytes
  | [stem] => some stem
  | _ => none

/-- The stem and the extension around a date. -/
def infixStem : List Bytes → Option Bytes
  | [stem, extension] => some (stem ++ bytes "." ++ extension)
  | _ => none

/-- `DeriveRotationPrimary`. -/
def deriveRotationPrimary (path : FilePath) : Option FilePath :=
  let filename := path.filename
  if filename = [] then none
  else
    let name := (numberedTailing.regexMatch filename).bind numberedStem <|>
      (datedTailing.regexMatch filename).bind datedStem <|>
        (datedInfix.regexMatch filename).bind infixStem
    name.map path.parentPath.child

/-- `IsRecognisedCodecExt`. -/
def isRecognisedCodecExt (ext : Bytes) : Bool :=
  ext.map foldAscii ∈ [bytes "gz", bytes "bz2", bytes "xz", bytes "zst"]

/-- `EnumerateCandidates`. -/
def enumerateCandidates (fs : FileSystem) (primary : FilePath) : List Candidate :=
  let dir := primary.parentPath
  let (stem, ext) := splitStemExt primary
  if dir.isEmpty || !fs.exists_ dir || !fs.isDirectory dir then []
  else if primary.filename = [] then []
  -- A compressed file is no primary.
  else if isRecognisedCodecExt ext then []
  else
    let matchers := buildMatchers primary.filename stem ext
    ((fs.entries dir).take maxEnumeratedDirectoryEntries).filterMap fun entry =>
      -- The primary is not a sibling of itself.
      if entry.filename = primary.filename then none
      else if entry.isRegularFile then classifySibling (dir.child entry.filename) matchers
      else none

/-- `RotatedFile`. -/
structure RotatedFile where
  path : FilePath
  canonicalKey : FilePath
  origin : Origin
deriving DecidableEq, Repr

/-- `RotationSeries`. -/
structure RotationSeries where
  primary : FilePath
  files : List RotatedFile
deriving DecidableEq, Repr

/-- A `std::sort` by rank, which may leave candidates of one rank in any order. -/
structure RankSort where
  sort : List Candidate → List Candidate
  perm : ∀ candidates, (sort candidates).Perm candidates
  sorted : ∀ candidates, (sort candidates).Pairwise fun a b => a.sortRank ≤ b.sortRank

/-- A file of a series as the scan of the directory found it. -/
def Candidate.rotatedFile (fs : FileSystem) (candidate : Candidate) : RotatedFile :=
  ⟨candidate.path, canonicalKeyForPath fs candidate.path, candidate.origin⟩

/-- The primary as a file of its series. -/
def primaryFile (fs : FileSystem) (primary : FilePath) : RotatedFile :=
  ⟨primary, canonicalKeyForPath fs primary, .primary⟩

/-- `EnumerateRotatedSiblings`: the candidates by rank, and the primary last. -/
def enumerateRotatedSiblings (fs : FileSystem) (order : RankSort) (primary : FilePath) :
    RotationSeries where
  primary := primary
  files := (order.sort (enumerateCandidates fs primary)).map (·.rotatedFile fs) ++
    [primaryFile fs primary]

end Loglib
