import ShimpzTeams.StrictJson.Parser

/-!
# Python's `json.dumps` over a strict JSON value

The writer under its three options, and the canonical form: sorted keys, compact
separators, and text outside ASCII left as it is. A float prints as Python's
`repr` of it, laid out from the shortest digits the platform gives.
-/

namespace ShimpzTeams.Protocol

open StrictJson

/-- The encoder options of one `json.dumps` call. -/
structure Options where
  ensureAscii : Bool
  sortKeys : Bool
  compact : Bool

/-- The canonical options: sorted keys, compact separators, no escape outside ASCII. -/
def canonicalOptions : Options := ⟨false, true, true⟩

def pushEscape (unit : Nat) : List Char :=
  ['\\', 'u', hexDigit (unit / 4096 % 16), hexDigit (unit / 256 % 16), hexDigit (unit / 16 % 16),
    hexDigit (unit % 16)]

def encodeUtf16 (character : Char) : List Nat :=
  if character.toNat < 0x10000 then [character.toNat]
  else [0xD800 + (character.toNat - 0x10000) / 1024, 0xDC00 + (character.toNat - 0x10000) % 1024]

/-- One character inside a JSON string as Python's encoder writes it. -/
def writeChar (ensureAscii : Bool) (character : Char) : List Char :=
  if character = '"' then ['\\', '"']
  else if character = '\\' then ['\\', '\\']
  else if character = '\n' then ['\\', 'n']
  else if character = '\r' then ['\\', 'r']
  else if character = '\t' then ['\\', 't']
  else if character.toNat = 0x8 then ['\\', 'b']
  else if character.toNat = 0xC then ['\\', 'f']
  else if character.toNat < 0x20 then pushEscape character.toNat
  else if character.toNat ≤ 0x7E then [character]
  else if !ensureAscii then [character]
  else (encodeUtf16 character).flatMap pushEscape

/-- One JSON string as Python's encoder writes it. -/
def writeString (text : String) (ensureAscii : Bool) : List Char :=
  '"' :: text.toList.flatMap (writeChar ensureAscii) ++ ['"']

/-- The whole part of a double's digits and its fraction, for exponents that need no scale. -/
def positional (digits : List Char) (exponent : Int) : List Char :=
  let point := exponent + 1
  let count : Int := digits.length
  if point ≤ 0 then
    '0' :: '.' :: List.replicate point.natAbs '0' ++ digits
  else if count ≤ point then
    digits ++ List.replicate (point - count).natAbs '0' ++ ['.', '0']
  else digits.take point.natAbs ++ '.' :: digits.drop point.natAbs

def twoDigits (value : Nat) : List Char :=
  let digits := (toString value).toList
  List.replicate (2 - digits.length) '0' ++ digits

def scientificParts (scientific : List Char) : List Char × Int :=
  let mantissa := scientific.takeWhile fun character => character != 'e'
  let exponent := (scientific.dropWhile fun character => character != 'e').drop 1
  (mantissa.filter Char.isDigit, ((String.ofList exponent).toInt?).getD 0)

/-- `repr(float)` for a finite double. -/
def floatRepr [Platform] (bits : BitVec 64) : List Char :=
  let (digits, exponent) := scientificParts (Platform.formatExp bits).toList
  let sign := if 2 ^ 63 ≤ bits.toNat then ['-'] else []
  let body :=
    if -4 ≤ exponent ∧ exponent < 16 then positional digits exponent
    else
      let first := digits.take 1
      let rest := digits.drop 1
      let fraction := if rest.isEmpty then [] else '.' :: rest
      first ++ fraction ++ 'e' :: (if exponent < 0 then '-' else '+') :: twoDigits exponent.natAbs
  sign ++ body

/-- The text Python writes for a number: an integer exactly, a float as its `repr`. -/
def numberText [Platform] : Number → List Char
  | .int integer => (toString integer).toList
  | .bigInt digits => digits.toList
  | .float bits => floatRepr bits

def itemSeparator (options : Options) : List Char :=
  if options.compact then [','] else [',', ' ']

/-- The separator between a member's name and its value. -/
def keySeparator (options : Options) : List Char :=
  if options.compact then [':'] else [':', ' ']

/-- Some named entries in the order their object is written in. -/
def ordered {α : Type} (options : Options) (entries : List (String × α)) : List (String × α) :=
  if options.sortKeys then entries.insertionSort fun left right => left.1 ≤ right.1 else entries

def writeMember (options : Options) (entry : String × List Char) : List Char :=
  writeString entry.1 options.ensureAscii ++ keySeparator options ++ entry.2

mutual

def writeValue [Platform] (options : Options) : Value → List Char
  | .null => ['n', 'u', 'l', 'l']
  | .bool true => ['t', 'r', 'u', 'e']
  | .bool false => ['f', 'a', 'l', 's', 'e']
  | .number number => numberText number
  | .string text => writeString text options.ensureAscii
  | .array items => '[' :: (itemSeparator options).intercalate (writeItems options items) ++ [']']
  | .object members =>
    '{' :: (itemSeparator options).intercalate
      ((ordered options (writeMembers options members)).map (writeMember options)) ++ ['}']

def writeItems [Platform] (options : Options) : List Value → List (List Char)
  | [] => []
  | item :: rest => writeValue options item :: writeItems options rest

def writeMembers [Platform] (options : Options) : List (String × Value) → List (String × List Char)
  | [] => []
  | (key, member) :: rest => (key, writeValue options member) :: writeMembers options rest

end

/-- `json.dumps(value, ensure_ascii=..., sort_keys=..., separators=...)`. -/
def dumps [Platform] (value : Value) (options : Options) : String :=
  String.ofList (writeValue options value)

def canonical [Platform] (value : Value) : String := dumps value canonicalOptions

def encodedBytes [Platform] (value : Value) : Nat :=
  ((writeValue canonicalOptions value).map Char.utf8Size).sum

end ShimpzTeams.Protocol
