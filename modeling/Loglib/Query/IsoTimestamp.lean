import Loglib.Numeric.CivilDays
import Loglib.Parsers.BareScalars

/-! The ISO timestamps of the query language: as they are read, and as instants are printed. -/

namespace Loglib.Query

/-- `MICROS_PER_SECOND`. -/
def microsPerSecond : Int := 1000000

/-- `MICROS_DENOM_CAP`: a fraction is read up to its seventh digit. -/
def microsDenomCap : Nat := 10000000

/-- `readInt` at the cursor: the number that a width of digits stands for, and the text
behind them. -/
def readInt (width : Nat) (text : Bytes) : Option (Nat × Bytes) :=
  if width ≤ text.length ∧ (text.take width).all isDecimalDigit then
    some (digitsValue (text.take width), text.drop width)
  else none

/-- The text behind a byte that must be at the cursor. -/
def readMark (mark : Byte) (text : Bytes) : Option Bytes := if text.head? = some mark then some
    (text.drop 1) else none

/-- The date: `YYYY-MM-DD`, of the calendar. -/
def readIsoDate (text : Bytes) : Option ((Nat × Nat × Nat) × Bytes) := do
  let (year, rest) ← readInt 4 text
  let rest ← readMark (ascii '-') rest
  let (month, rest) ← readInt 2 rest
  let rest ← readMark (ascii '-') rest
  let (day, rest) ← readInt 2 rest
  guard (isDate year month day)
  return ((year, month, day), rest)

/-- The end of the day is 24:00:00, and a minute may have a leap second. -/
def isIsoClock (hour minute second : Nat) : Bool :=
  hour ≤ 24 && minute ≤ 59 && second ≤ 60 && !(hour == 24 && (minute != 0 || second != 0))

/-- The seconds, when a colon starts them. -/
def readSeconds (text : Bytes) : Option (Nat × Bytes) :=
  if text.head? = some (ascii ':') then readInt 2 (text.drop 1) else some (0, text)

/-- The time of day: `HH:MM`, and seconds when they follow. -/
def readIsoClock (text : Bytes) : Option ((Nat × Nat × Nat) × Bytes) := do
  let (hour, rest) ← readInt 2 text
  let rest ← readMark (ascii ':') rest
  let (minute, rest) ← readInt 2 rest
  let (second, rest) ← readSeconds rest
  guard (isIsoClock hour minute second)
  return ((hour, minute, second), rest)

/-- The loop over the digits of a fraction: what they stand for and the power of ten below it. -/
def scanFraction (fractional denom : Nat) : Bytes → Nat × Nat × Bytes
  | [] => (fractional, denom, [])
  | byte :: rest =>
    if isDecimalDigit byte ∧ denom < microsDenomCap then
      scanFraction (fractional * 10 + decimalDigitValue byte) (denom * 10) rest
    else (fractional, denom, byte :: rest)

/-- The microseconds of a fraction, when a mark starts one. The digits past these are skipped. -/
def readFraction (text : Bytes) : Nat × Bytes :=
  if text.head? = some (ascii '.') ∨ text.head? = some (ascii ',') then
    let (fractional, denom, rest) := scanFraction 0 1 (text.drop 1)
    (fractional * 1000000 / denom, rest.dropWhile isDecimalDigit)
  else (0, text)

/-- The minutes of a zone: mandatory behind a colon, and else two digits or none. -/
def readZoneMinutes (text : Bytes) : Option (Nat × Bytes) :=
  if text.head? = some (ascii ':') then readInt 2 (text.drop 1)
  else if 1 < text.length ∧ text.head?.any isDecimalDigit then readInt 2 text
  else some (0, text)

/-- The seconds that a zone is ahead of UTC: `Z`, `+HH:MM`, `+HHMM` and the like, or nothing. -/
def readZone (text : Bytes) : Option (Int × Bytes) :=
  if text.head? = some (ascii 'Z') then some (0, text.drop 1)
  else if text.head? = some (ascii '+') ∨ text.head? = some (ascii '-') then do
    let (hours, rest) ← readInt 2 (text.drop 1)
    let (minutes, rest) ← readZoneMinutes rest
    guard (hours ≤ 23 ∧ minutes ≤ 59)
    let sign : Int := if text.head? = some (ascii '-') then -1 else 1
    return (sign * (hours * 3600 + minutes * 60 : Nat), rest)
  else some (0, text)

/-- What follows the mark between date and time: the microseconds of UTC from the midnight
of the date. -/
def readIsoTime (text : Bytes) : Option (Int × Bytes) := do
  let ((hour, minute, second), rest) ← readIsoClock text
  let (fractionalMicros, rest) := readFraction rest
  guard (¬(hour = 24 ∧ fractionalMicros ≠ 0))
  let (offsetSeconds, rest) ← readZone rest
  return (((hour * 3600 + minute * 60 + second : Nat) - offsetSeconds) * microsPerSecond +
    fractionalMicros, rest)

/-- The time, when a mark separates one from the date. A date alone is its midnight. -/
def readOptionalTime (text : Bytes) : Option (Int × Bytes) :=
  if text.head? = some (ascii 'T') ∨ text.head? = some (ascii ' ') then readIsoTime (text.drop 1)
    else some (0, text)

/-- Howard Hinnant's date algorithm, with a division that rounds to zero. -/
def daysSinceEpoch (year month day : Nat) : Int :=
  let y : Int := if month ≤ 2 then (year : Int) - 1 else year
  let era := Int.tdiv (if 0 ≤ y then y else y - 399) 400
  let yoe := (y - era * 400).toNat
  let doy := (153 * (if 2 < month then month - 3 else month + 9) + 2) / 5 + (day - 1)
  let doe := yoe * 365 + yoe / 4 - yoe / 100 + doy
  era * 146097 + doe - 719468

/-- `ParseIsoTimestamp`: the microseconds since the epoch. -/
def parseIsoTimestamp (text : Bytes) : Option Int64 := do
  let ((year, month, day), rest) ← readIsoDate text
  let (micros, rest) ← readOptionalTime rest
  guard (rest = [])
  return Int64.ofInt (daysSinceEpoch year month day * 86400 * microsPerSecond + micros)

/-- `FormatTimestampMicros`: `YYYY-MM-DDTHH:MM:SS.uuuuuuZ`, or a marker for a year without
four digits. -/
def formatTimestampMicros (micros : Int64) : Bytes :=
  -- The divisions round to zero, and an instant before the epoch borrows a second and a day.
  let borrows := micros.toInt.tmod microsPerSecond < 0
  let totalSeconds := micros.toInt.tdiv microsPerSecond - if borrows then 1 else 0
  let microRemainder := (micros.toInt.tmod microsPerSecond + if borrows then microsPerSecond
    else 0).toNat
  let borrowsDay := totalSeconds.tmod 86400 < 0
  let days := totalSeconds.tdiv 86400 - if borrowsDay then 1 else 0
  let secondOfDay := (totalSeconds.tmod 86400 + if borrowsDay then 86400 else 0).toNat
  let date := civilFromDays days
  if date.year < 0 ∨ 9999 < date.year then bytes "epoch_micros:" ++ decimalInt micros.toInt
  else
    paddedDecimal 4 date.year.toNat ++ ascii '-' :: paddedDecimal 2 date.month ++ ascii '-' ::
      paddedDecimal 2 date.day ++
      ascii 'T' :: paddedDecimal 2 (secondOfDay / 3600) ++ ascii ':' :: paddedDecimal 2
        (secondOfDay % 3600 / 60) ++
      ascii ':' :: paddedDecimal 2 (secondOfDay % 60) ++ ascii '.' ::
        paddedDecimal 6 microRemainder ++ [ascii 'Z']

example : parseIsoTimestamp (bytes "1969-12-31T23:30:00.5-0030") = some 500000 := by decide

end Loglib.Query
