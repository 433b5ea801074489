import Mathlib.Data.Vector.Basic

/-!
# What the code takes from outside its repository

The time-zone database, SHA-256, the Unicode tables, and the text forms of a
double are libraries the code calls. They are one class of parameters. No law
is part of the class: a result that relies on a documented behaviour of one of
them names it as a hypothesis of its own.
-/

namespace ShimpzTeams

/-- A calendar date as its year, month and day. -/
abbrev Civil := Int × Int × Int

/-- The libraries the modelled code calls. -/
class Platform where
  /-- A loaded time zone (`jiff::tz::TimeZone`). -/
  Zone : Type
  /-- `TimeZone::UTC`. -/
  utc : Zone
  /-- The zone the database holds under exactly this name. -/
  zoneGet : String → Option Zone
  /-- The civil date of an epoch second in a zone, when the second has one. -/
  civilAt : Zone → Int → Option Civil
  /-- The epoch second of a civil date, hour and minute, at its first
  occurrence when ambiguous and past the gap when it does not exist. -/
  instantOf : Zone → Civil → Nat → Nat → Option Int
  /-- The 32 bytes of SHA-256. -/
  sha256 : List UInt8 → Vector UInt8 32
  /-- The two-letter Unicode general category. -/
  category : Char → String
  /-- Whether a text is in Unicode normalization form C. -/
  isNfc : String → Bool
  /-- Python's full lowercase mapping. -/
  lower : String → String
  /-- Rust's full uppercase mapping of one character. -/
  toUppercase : Char → List Char
  /-- The shortest scientific notation of a finite double's magnitude. -/
  formatExp : BitVec 64 → String
  /-- The correctly rounded finite double of a decimal literal. -/
  parseFloat : String → Option (BitVec 64)
  /-- Whether the pattern engine gives up on a text before an answer. -/
  searchStops : String → Bool

/-- Two lowercase hexadecimal digits of each byte. -/
def hexDigit (nibble : Nat) : Char :=
  if nibble < 10 then Char.ofNat (48 + nibble) else Char.ofNat (87 + nibble)

/-- The lowercase hexadecimal text of some bytes. -/
def hex (bytes : List UInt8) : String :=
  String.ofList (bytes.flatMap fun byte => [hexDigit (byte.toNat / 16), hexDigit (byte.toNat % 16)])

def utf8 (text : String) : List UInt8 := text.toByteArray.data.toList

def sha256Hex [Platform] (text : String) : String :=
  hex (Platform.sha256 (utf8 text)).toList

end ShimpzTeams
