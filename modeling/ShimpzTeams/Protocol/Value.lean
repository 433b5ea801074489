import ShimpzTeams.StrictJson.Parser

/-!
# Python's view of a decoded JSON value, and its patterns

The type tests, the member and number checks, and the equality that the
validators repeat. Python decodes a JSON integer to `int`, a fraction or exponent
to `float`, and compares numbers by value across `bool`, `int` and `float`. Each
declared pattern is the set of texts it matches whole, a scan of the text from its
start.
-/

namespace ShimpzTeams.Protocol

open StrictJson

def text (value : String) : Value := .string value

def int (value : Int) : Value := .number (.int value)

def objectOf (members : List (String × Value)) : Value := .object members

/-- The members of an object, or `none` for any other value. -/
def object : Value → Option (List (String × Value))
  | .object members => some members
  | _ => none

/-- The items of an array, or `none` for any other value. -/
def array : Value → Option (List Value)
  | .array items => some items
  | _ => none

/-- The text of a string, or `none` for any other value. -/
def string : Value → Option String
  | .string text => some text
  | _ => none

def members : Value → List (String × Value)
  | .object members => members
  | _ => []

def elements : Value → List Value
  | .array items => items
  | _ => []

def isNull : Value → Bool
  | .null => true
  | _ => false

def isBool : Value → Bool
  | .bool _ => true
  | _ => false

def isString : Value → Bool
  | .string _ => true
  | _ => false

def isObject : Value → Bool
  | .object _ => true
  | _ => false

/-- `value[key]` of an object, `null` when it is missing or no object. -/
def fieldOf (value : Value) (key : String) : Value := (value.get key).getD .null

/-- `value[key]` of a member list, `null` when it is missing. -/
def field (members : List (String × Value)) (key : String) : Value :=
  ((members.find? fun member => member.1 == key).map Prod.snd).getD .null

def hasExactly (members : List (String × Value)) (fields : List String) : Bool :=
  members.length == fields.length && members.all fun member => fields.contains member.1

def exactObject (value : Value) (fields : List String) : Option (List (String × Value)) :=
  (object value).filter fun members => hasExactly members fields

def hasFields (value : Value) (fields : List String) : Bool :=
  match value with
  | .object members => hasExactly members fields
  | _ => false

/-- The integer of a value whose `type(x) is int`, when it fits 64 bits. -/
def smallInt : Value → Option Int
  | .number (.int integer) => some integer
  | _ => none

/-- `type(x) is int`: an integer of any size. -/
def isInteger : Value → Bool
  | .number (.int _) => true
  | .number (.bigInt _) => true
  | _ => false

/-- `type(x) is int and low <= x <= high`. -/
def whole (value : Value) (low high : Int) : Bool :=
  (smallInt value).any fun integer => low ≤ integer && integer ≤ high

def set (value : Value) (key : String) (member : Value) : Value :=
  match value with
  | .object members =>
    if members.any fun found => found.1 == key then
      .object (setFirst members)
    else .object (members ++ [(key, member)])
  | other => other
where
  setFirst : List (String × Value) → List (String × Value)
    | [] => []
    | found :: rest => if found.1 == key then (key, member) :: rest else found :: setFirst rest

/-- The decimal digits of a non-negative integer, or `none` for anything else. -/
def naturalDigits : Value → Option String
  | .number (.int integer) => if 0 ≤ integer then some (toString integer) else none
  | .number (.bigInt digits) => if digits.toList.head? == some '-' then none else some digits
  | _ => none

/-- `type(x) is int and x >= 1`, at any size. -/
def positive (value : Value) : Bool := (naturalDigits value).any fun digits => digits != "0"

/-- The exact decimal text of a whole double, zero unsigned, or `none` when it has a fraction. -/
def wholeFloatText (bits : BitVec 64) : Option String :=
  let exponent := bits.toNat / 2 ^ 52 % 2 ^ 11
  let fraction := bits.toNat % 2 ^ 52
  let mantissa := if exponent == 0 then fraction else fraction + 2 ^ 52
  let scale := if exponent == 0 then 1 else exponent
  if exponent == 2 ^ 11 - 1 then none
  else if 1075 ≤ scale || mantissa % 2 ^ (1075 - scale) == 0 then
    let magnitude : Nat := if 1075 ≤ scale then mantissa * 2 ^ (scale - 1075)
      else mantissa / 2 ^ (1075 - scale)
    some (toString (if 2 ^ 63 ≤ bits.toNat then -(magnitude : Int) else magnitude))
  else none

/-- A number's exact comparison key. -/
inductive Numeric where
  | integer (value : Int)
  | big (digits : String)
  | float (bits : BitVec 64)

def numeric : Value → Option Numeric
  | .bool flag => some (.integer (if flag then 1 else 0))
  | .number (.int integer) => some (.integer integer)
  | .number (.bigInt digits) => some (.big digits)
  | .number (.float bits) => some (.float bits)
  | _ => none

/-- Exact equality of two numbers across their kinds. -/
def numbersEqual : Numeric → Numeric → Bool
  | .integer left, .integer right => left == right
  | .big left, .big right => left == right
  | .float left, .float right => floatEq left right
  | .integer _, .big _ => false
  | .big _, .integer _ => false
  | .integer integer, .float bits => wholeFloatText bits == some (toString integer)
  | .float bits, .integer integer => wholeFloatText bits == some (toString integer)
  | .big digits, .float bits => wholeFloatText bits == some digits
  | .float bits, .big digits => wholeFloatText bits == some digits

mutual

/-- Python `left == right` for decoded JSON values. -/
def pyEq : Value → Value → Bool
  | .null, .null => true
  | .string left, .string right => left == right
  | .array left, .array right => pyEqItems left right
  | .object left, .object right =>
    left.length == right.length && pyEqMembers left right
  | .bool left, right =>
    (numeric right).any fun found => numbersEqual (.integer (if left then 1 else 0)) found
  | .number (.int left), right =>
    (numeric right).any fun found => numbersEqual (.integer left) found
  | .number (.bigInt left), right =>
    (numeric right).any fun found => numbersEqual (.big left) found
  | .number (.float left), right =>
    (numeric right).any fun found => numbersEqual (.float left) found
  | _, _ => false

/-- Equal lengths and equal items in order. -/
def pyEqItems : List Value → List Value → Bool
  | [], [] => true
  | left :: lefts, right :: rights => pyEq left right && pyEqItems lefts rights
  | _, _ => false

def pyEqMembers : List (String × Value) → List (String × Value) → Bool
  | [], _ => true
  | (key, left) :: rest, right =>
    (match right.find? fun member => member.1 == key with
      | some (_, other) => pyEq left other
      | none => false) && pyEqMembers rest right

end

theorem get_bind_string (value key) : (value.get key).bind string = string (fieldOf value key) := by
  unfold fieldOf
  cases value.get key <;> rfl

theorem get_bind_smallInt (value key) : (value.get key).bind smallInt = smallInt (fieldOf value key) := by
  unfold fieldOf
  cases value.get key <;> rfl

theorem fieldOf_of_exactObject {value fields members} (h : exactObject value fields = some members) (key) :
    fieldOf value key = field members key := by
  obtain ⟨hobject, -⟩ := Option.filter_eq_some_iff.mp h
  cases value with
  | object found =>
    cases hobject
    rfl
  | null | bool | number | string | array => cases hobject

def isLowerAscii (character : Char) : Bool := 'a' ≤ character && character ≤ 'z'

def isUpperAscii (character : Char) : Bool := 'A' ≤ character && character ≤ 'Z'

def isDigitAscii (character : Char) : Bool := '0' ≤ character && character ≤ '9'

def isLowerAlnum (character : Char) : Bool := isLowerAscii character || isDigitAscii character

/-- A letter or digit of either case. -/
def isAlnum (character : Char) : Bool := isUpperAscii character || isLowerAlnum character

def isHexLower (character : Char) : Bool :=
  isDigitAscii character || ('a' ≤ character && character ≤ 'f')

/-- Exactly `count` lowercase hexadecimal digits. -/
def isHexText (count : Nat) (value : String) : Bool :=
  value.length == count && value.toList.all isHexLower

/-- One character of the first class, then at most `most` of the second. -/
def isHeaded (first rest : Char → Bool) (most : Nat) (value : List Char) : Bool :=
  match value with
  | [] => false
  | head :: tail => first head && tail.length ≤ most && tail.all rest

/-- `[0-9a-f]{32}`: a Routine, run, or notice id. -/
def routineIdRe (value : String) : Bool := isHexText 32 value

/-- `[0-9a-f]{64}`: a SHA-256. -/
def sha256Re (value : String) : Bool := isHexText 64 value

/-- `sha256:[0-9a-f]{64}`: a plan digest, a pin, or a source digest. -/
def planDigestRe (value : String) : Bool :=
  value.length == 71 && value.toList.take 7 == "sha256:".toList && (value.toList.drop 7).all isHexLower

/-- `[a-z][a-z0-9-]{0,63}`: a closed error code. -/
def errorCodeRe (value : String) : Bool :=
  isHeaded isLowerAscii (fun character => isLowerAlnum character || character == '-') 63
    value.toList

/-- `[a-z][a-z0-9_-]{0,31}`: a step's plan id. -/
def routineStepIdRe (value : String) : Bool :=
  isHeaded isLowerAscii
    (fun character => isLowerAlnum character || character == '_' || character == '-') 31
    value.toList

/-- `[A-Za-z0-9][A-Za-z0-9./:_-]{0,255}`: a journal generation's safe name. -/
def safeIdRe (value : String) : Bool :=
  isHeaded isAlnum (fun character => isAlnum character || ['.', '_', ':', '/', '-'].contains character)
    255 value.toList

/-- `[A-Za-z0-9][A-Za-z0-9_.-]{0,127}`: a container id or name. -/
def workloadRe (value : String) : Bool :=
  isHeaded isAlnum (fun character => isAlnum character || ['_', '.', '-'].contains character) 127
    value.toList

/-- `[0-9a-f]{8}-[0-9a-f]{4}-4[0-9a-f]{3}-[89ab][0-9a-f]{3}-[0-9a-f]{12}`: a logical operation id. -/
def operationIdRe (value : String) : Bool :=
  match value.toList.splitOn '-' with
  | [first, second, third, fourth, fifth] =>
    first.length == 8 && second.length == 4 && third.length == 4 && fourth.length == 4 &&
      fifth.length == 12 && third.head? == some '4' &&
      (fourth.head?.any fun digit => ['8', '9', 'a', 'b'].contains digit) &&
      (first ++ second ++ third ++ fourth ++ fifth).all isHexLower
  | _ => false

/-- `[a-z0-9_]{1,40}`: a Team id. -/
def teamIdRe (value : String) : Bool :=
  1 ≤ value.length && value.length ≤ 40 &&
    value.toList.all fun character => isLowerAlnum character || character == '_'

/-- What follows a letter or digit of `[a-z][a-z0-9]*(?:[sep][a-z0-9]+)*`. -/
def afterWord (separator : Char → Bool) : List Char → Bool
  | [] => true
  | [last] => isLowerAlnum last
  | first :: second :: rest =>
    if isLowerAlnum first then afterWord separator (second :: rest)
    else separator first && isLowerAlnum second && afterWord separator rest

/-- `[a-z][a-z0-9]*(?:[sep][a-z0-9]+)*`. -/
def isWords (separator : Char → Bool) (value : List Char) : Bool :=
  match value with
  | [] => false
  | head :: tail => isLowerAscii head && afterWord separator tail

/-- An Assistant, Integration, provider, or Stored Input identifier. -/
def identifierRe (value : String) : Bool := isWords (· == '-') value.toList

def actionIdRe (value : String) : Bool :=
  isWords (fun character => ['.', '_', '-'].contains character) value.toList

/-- `[A-Za-z][A-Za-z0-9_+-]{0,31}(?:/[A-Za-z0-9][A-Za-z0-9_+-]{0,31}){0,2}`: a zone name. -/
def timezoneRe (value : String) : Bool :=
  let rest := fun character => isAlnum character || ['_', '+', '-'].contains character
  match value.toList.splitOn '/' with
  | [] => false
  | first :: parts =>
    isHeaded (fun character => isUpperAscii character || isLowerAscii character) rest 31 first &&
      parts.length ≤ 2 && parts.all (isHeaded isAlnum rest 31)

/-- `(?:[01][0-9]|2[0-3]):[0-5][0-9]`: a wall-clock time. -/
def timeRe (value : String) : Bool :=
  match value.toList with
  | [tens, ones, colon, minuteTens, minuteOnes] =>
    ((tens == '0' || tens == '1') && isDigitAscii ones ||
      tens == '2' && '0' ≤ ones && ones ≤ '3') &&
      colon == ':' && '0' ≤ minuteTens && minuteTens ≤ '5' && isDigitAscii minuteOnes
  | _ => false

/-- The characters after a JSON pointer's first slash: each `~` is an escape. -/
def pointerTail : List Char → Bool
  | [] => true
  | ['~'] => false
  | '~' :: escape :: rest => (escape == '0' || escape == '1') && pointerTail rest
  | _ :: rest => pointerTail rest

/-- `(?:/(?:[^/~]|~[01])*)*`: a JSON pointer. -/
def pointerRe (value : String) : Bool :=
  match value.toList with
  | [] => true
  | '/' :: rest => pointerTail rest
  | _ => false

/-- The digits of a number after its sign: `0` or no leading zero, and what follows them. -/
def integerDigits : List Char → Option (List Char)
  | '0' :: rest => some rest
  | text =>
    if (text.takeWhile isDigitAscii).isEmpty then none else some (text.dropWhile isDigitAscii)

def markedDigits (mark : List Char → Option (List Char)) (text : List Char) : Option (List Char) :=
  match mark text with
  | none => some text
  | some rest =>
    if (rest.takeWhile isDigitAscii).isEmpty then none else some (rest.dropWhile isDigitAscii)

def afterPoint : List Char → Option (List Char)
  | '.' :: rest => some rest
  | _ => none

def afterExponent : List Char → Option (List Char)
  | 'e' :: '+' :: rest => some rest
  | 'e' :: '-' :: rest => some rest
  | 'e' :: rest => some rest
  | 'E' :: '+' :: rest => some rest
  | 'E' :: '-' :: rest => some rest
  | 'E' :: rest => some rest
  | _ => none

/-- A number's text without its sign. -/
def unsigned : List Char → List Char
  | '-' :: rest => rest
  | text => text

/-- `-?(?:0|[1-9][0-9]*)(?:\.[0-9]+)?(?:[eE][+-]?[0-9]+)?`: a number node's exact JSON text. -/
def outputNumberRe (value : String) : Bool :=
  ((integerDigits (unsigned value.toList)).bind fun rest =>
    (markedDigits afterPoint rest).bind (markedDigits afterExponent)) == some []

def isFullValue (pattern : String → Bool) : Value → Bool
  | .string text => pattern text
  | _ => false

/-- The string of a value within `maximum` characters that fully matches a pattern. -/
def bounded (pattern : String → Bool) (maximum : Nat) : Value → Option String
  | .string text => if text.length ≤ maximum && pattern text then some text else none
  | _ => none

def canonicalAssistantId : Value → Option String := bounded identifierRe 40

/-- `canonical_identifier`: one Integration, provider, or Stored Input identifier. -/
def canonicalIdentifier : Value → Option String := bounded identifierRe 64

def canonicalActionId : Value → Option String := bounded actionIdRe 128

/-- Python's whitespace. -/
def isspace (character : Char) : Bool :=
  [0x9, 0xA, 0xB, 0xC, 0xD, 0x1C, 0x1D, 0x1E, 0x1F, 0x20, 0x85, 0xA0, 0x1680, 0x2000, 0x2001,
    0x2002, 0x2003, 0x2004, 0x2005, 0x2006, 0x2007, 0x2008, 0x2009, 0x200A, 0x2028, 0x2029,
    0x202F, 0x205F, 0x3000].contains character.toNat

/-- A text without its leading and trailing whitespace. -/
def strip (value : String) : String :=
  String.ofList ((value.toList.dropWhile isspace).reverse.dropWhile isspace).reverse

/-- Every control or invisible character, and a lone surrogate. -/
def planUnsafe (point : Nat) : Bool :=
  point ≤ 0x1F || (0x7F ≤ point && point ≤ 0x9F) || (0x200B ≤ point && point ≤ 0x200F) ||
    (0x2028 ≤ point && point ≤ 0x202E) || (0x2060 ≤ point && point ≤ 0x206F) ||
    (0xD800 ≤ point && point ≤ 0xDFFF) || point == 0xFEFF

/-- A string of 1 to `maximum` characters without a control or invisible character. -/
def plain (value : Value) (maximum : Nat) : Bool :=
  (string value).any fun text =>
    1 ≤ text.length && text.length ≤ maximum && !text.toList.any fun character => planUnsafe character.toNat

end ShimpzTeams.Protocol
