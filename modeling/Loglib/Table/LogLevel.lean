import Loglib.Basic.Bytes

/-! Canonical log levels and the names that resolve to them. -/

namespace Loglib

/-- Severity levels, `unknown` for a name that resolves to none. -/
inductive LogLevel where
  | unknown
  | trace
  | debug
  | info
  | warn
  | error
  | fatal
deriving DecidableEq, Repr

namespace LogLevel

/-- The `uint8_t` value of a level. -/
def ordinal : LogLevel → Nat
  | unknown => 0
  | trace => 1
  | debug => 2
  | info => 3
  | warn => 4
  | error => 5
  | fatal => 6

/-- Every level fits below the sentinel of the level sort. -/
theorem ordinal_lt (level : LogLevel) : level.ordinal < 7 := by
  cases level <;> simp [ordinal]

/-- Built-in aliases, compared case-insensitively. -/
def builtinAliases : List (Bytes × LogLevel) :=
  [(bytes "trace", trace), (bytes "trc", trace), (bytes "t", trace), (bytes "finer", trace),
    (bytes "finest", trace), (bytes "silly", trace),
    (bytes "debug", debug), (bytes "dbg", debug), (bytes "d", debug), (bytes "verbose", debug),
    (bytes "vrb", debug), (bytes "v", debug), (bytes "fine", debug),
    (bytes "info", info), (bytes "inf", info), (bytes "i", info), (bytes "information", info),
    (bytes "informational", info), (bytes "notice", info),
    (bytes "warn", warn), (bytes "wrn", warn), (bytes "w", warn), (bytes "warning", warn),
    (bytes "error", error), (bytes "err", error), (bytes "e", error), (bytes "severe", error),
    (bytes "fatal", fatal), (bytes "ftl", fatal), (bytes "f", fatal), (bytes "critical", fatal),
    (bytes "crit", fatal), (bytes "emerg", fatal), (bytes "emergency", fatal),
    (bytes "panic", fatal), (bytes "alert", fatal), (bytes "fault", fatal)]

/-- The level a name stands for, by the built-in aliases. -/
def parseLevelName (name : Bytes) : Option LogLevel :=
  if name.isEmpty then none
  else
    (builtinAliases.find? fun entry => equalsIgnoreCaseAscii name entry.1).map (·.2)

/-- The first override that matches the name and spells a level. -/
def resolveOverride (name : Bytes) : List (Bytes × Bytes) → Option LogLevel
  | [] => none
  | (alias_, canonicalName) :: rest =>
    if equalsIgnoreCaseAscii name alias_ then
      -- An invalid canonical name falls through to the next override.
      match parseLevelName canonicalName with
      | some level => some level
      | none => resolveOverride name rest
    else resolveOverride name rest

/-- The level of a name: overrides win over the built-in aliases. -/
def resolveLevel (name : Bytes) (overrides : List (Bytes × Bytes)) : Option LogLevel :=
  match resolveOverride name overrides with
  | some level => some level
  | none => parseLevelName name

end LogLevel

end Loglib
