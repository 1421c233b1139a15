import Loglib.Numeric.CivilDate
import Loglib.Table.TimeBackfill

/-! How timestamps are read: two fast paths for ISO 8601, one for syslog, and the date library for
the rest. -/

namespace Loglib

/-- `TimestampFormatKind`. -/
inductive TimestampFormatKind where
  | generic
  | iso8601T
  | iso8601Space
  | syslogRfc3164NoYear
deriving DecidableEq, Repr

/-- `ClassifyTimestampFormat`. -/
def classifyTimestampFormat (format : Bytes) : TimestampFormatKind :=
  if format = bytes "%FT%T" then .iso8601T
  else if format = bytes "%F %T" then .iso8601Space
  else if format = bytes "%b %e %H:%M:%S" ∨
    format = bytes "%b %d %H:%M:%S" then .syslogRfc3164NoYear
  else .generic

/-- The value of a decimal digit. -/
def digitValue (byte : Byte) : Option Nat :=
  if ascii '0' ≤ byte ∧ byte ≤ ascii '9' then some (byte.toNat - 48) else none

/-- `ParseFixedDigits`: a number of digits at an offset of the text, which is long enough. -/
def parseFixedDigits (text : Bytes) (offset count : Nat) : Option Nat :=
  ((text.drop offset).take count).foldlM (fun value byte =>
    (digitValue byte).map (value * 10 + ·)) 0

/-- The instant of a date and a time of day. -/
def timeStampOf (year month day hour minute second fractionalUs : Nat) : Int64 :=
  Int64.ofInt ((sysDays year month day * 86400 + (hour * 3600 + minute * 60 + second : Nat)) *
    1000000 + fractionalUs)

/-- A leap second is a second of the day. -/
def isTimeOfDay (hour minute second : Nat) : Bool := hour ≤ 23 && minute ≤ 59 && second ≤ 60

/-- What may follow the seconds: a fraction of at most six digits, and a `Z`. -/
def parseIsoFraction (rest : Bytes) : Option Nat :=
  match rest with
  | [] => some 0
  | mark :: more =>
    -- Up to six digits behind a point or comma, and a `Z` at the end at most.
    if mark = ascii '.' ∨ mark = ascii ',' then
      let digits := (more.take 6).takeWhile fun byte => (digitValue byte).isSome
      let behind := more.drop digits.length
      if digits = [] then none
      else if behind = [] ∨ behind = [ascii 'Z'] then
        -- Missing digits count as zeros.
        (parseFixedDigits digits 0 digits.length).map (· * 10 ^ (6 - digits.length))
      else none
    else if rest = [ascii 'Z'] then some 0
    else none

/-- `TryParseIsoTimestamp`: `YYYY-MM-DDsHH:MM:SS` and a fraction. -/
def tryParseIsoTimestamp (text : Bytes) (dateTimeSep : Byte) : Option Int64 := do
  guard (19 ≤ text.length)
  let year ← parseFixedDigits text 0 4
  guard (text[4]? = some (ascii '-'))
  let month ← parseFixedDigits text 5 2
  guard (text[7]? = some (ascii '-'))
  let day ← parseFixedDigits text 8 2
  guard (text[10]? = some dateTimeSep)
  let hour ← parseFixedDigits text 11 2
  guard (text[13]? = some (ascii ':'))
  let minute ← parseFixedDigits text 14 2
  guard (text[16]? = some (ascii ':'))
  let second ← parseFixedDigits text 17 2
  let fractionalUs ← parseIsoFraction (text.drop 19)
  guard (isTimeOfDay hour minute second)
  guard (isDate year month day)
  return timeStampOf year month day hour minute second fractionalUs

/-- The English month abbreviations. -/
def syslogMonths : List Bytes :=
  [bytes "Jan", bytes "Feb", bytes "Mar", bytes "Apr", bytes "May", bytes "Jun", bytes "Jul",
    bytes "Aug",
    bytes "Sep", bytes "Oct", bytes "Nov", bytes "Dec"]

/-- `MatchSyslogMonth`: the month counts from one. -/
def matchSyslogMonth (text : Bytes) : Option Nat := (syslogMonths.idxOf? (text.take 3)).map (· + 1)

/-- A day of one digit or two, and the text behind it. -/
def parseSyslogDay (text : Bytes) : Option (Nat × Bytes) := do
  let first ← text.head?.bind digitValue
  match (text.drop 1).head?.bind digitValue with
  | some second => return (first * 10 + second, text.drop 2)
  | none => return (first, text.drop 1)

/-- `TryParseSyslogRfc3164Timestamp`: a month later than the current one is of the year before. -/
def tryParseSyslogRfc3164Timestamp (nowYear nowMonth : Nat) (text : Bytes) : Option Int64 := do
  guard (15 ≤ text.length)
  let month ← matchSyslogMonth text
  guard (text[3]? = some (ascii ' '))
  -- A day below ten stands behind two spaces.
  let (day, rest) ← parseSyslogDay (text.drop (if text[4]? = some (ascii ' ') then 5 else 4))
  guard (1 ≤ day ∧ day ≤ 31)
  guard (rest.head? = some (ascii ' '))
  let clock := rest.drop 1
  guard (clock.length = 8)
  let hour ← parseFixedDigits clock 0 2
  guard (clock[2]? = some (ascii ':'))
  let minute ← parseFixedDigits clock 3 2
  guard (clock[5]? = some (ascii ':'))
  let second ← parseFixedDigits clock 6 2
  guard (isTimeOfDay hour minute second)
  -- The text has no year: a month that is still to come was last year's.
  let year := if nowMonth < month then nowYear - 1 else nowYear
  guard (isDate year month day)
  return timeStampOf year month day hour minute second 0

/-- `TryParseTimestamp`. The date library reads the formats without a fast path. -/
def tryParseTimestamp (nowYear nowMonth : Nat) (generic : TimestampParser) : TimestampParser :=
  fun format text =>
  match classifyTimestampFormat format with
  | .iso8601T => tryParseIsoTimestamp text (ascii 'T')
  | .iso8601Space => tryParseIsoTimestamp text (ascii ' ')
  | .syslogRfc3164NoYear => tryParseSyslogRfc3164Timestamp nowYear nowMonth text
  | .generic => generic format text

example : tryParseIsoTimestamp (bytes "1970-01-02T00:00:01,5Z") (ascii 'T') = some 86401500000 := by
  decide

end Loglib
