import Mathlib
import ShimpzTeams.Platform

/-!
# The strict reader

In a decoded value an object keeps its members in document order, an integer outside
64 bits keeps its decimal text, and a double keeps its bits; equality is Rust's derived
`PartialEq`. A recursive-descent reader goes over the characters of a document. Each
function takes what is left of the text and its byte position, and gives what it read
with the rest, or refuses at a byte offset. The nesting still allowed is the
recursion's measure, so a container one level too deep is refused where it opens.
-/

namespace ShimpzTeams.StrictJson

/-- A decoded JSON number, typed as Python's decoder types it. -/
inductive Number where
  | int (integer : Int)
  | bigInt (digits : String)
  | float (bits : BitVec 64)
  deriving DecidableEq, Repr

/-- One decoded JSON value. -/
inductive Value where
  | null
  | bool (flag : Bool)
  | number (number : Number)
  | string (text : String)
  | array (items : List Value)
  | object (members : List (String × Value))
  deriving Repr, Inhabited

namespace Value

def get : Value → String → Option Value
  | .object members, key => (members.find? fun member => member.1 == key).map Prod.snd
  | _, _ => none

@[elab_as_elim]
theorem induct {motive : Value → Prop} (null : motive .null) (bool : ∀ flag, motive (.bool flag))
    (number : ∀ number, motive (.number number)) (string : ∀ text, motive (.string text))
    (array : ∀ items, (∀ item ∈ items, motive item) → motive (.array items))
    (object : ∀ members, (∀ member ∈ members, motive member.2) → motive (.object members))
    (value : Value) : motive value := by
  refine @Value.rec motive (fun items => ∀ item ∈ items, motive item)
    (fun members => ∀ member ∈ members, motive member.2) (fun member => motive member.2)
    null bool number string array object ?_ ?_ ?_ ?_ ?_ value
  · simp
  · intro head tail hhead htail item hitem
    rcases List.mem_cons.mp hitem with rfl | hitem
    · exact hhead
    · exact htail item hitem
  · simp
  · intro head tail hhead htail member hmember
    rcases List.mem_cons.mp hmember with rfl | hmember
    · exact hhead
    · exact htail member hmember
  · intro name value hvalue
    exact hvalue

end Value

/-- Whether the bits of a double are those of a NaN. -/
def isNan (bits : BitVec 64) : Bool :=
  bits.toNat / 2 ^ 52 % 2 ^ 11 == 2 ^ 11 - 1 && bits.toNat % 2 ^ 52 != 0

/-- Equality of two doubles: no NaN is equal to anything, and the zeros are equal. -/
def floatEq (left right : BitVec 64) : Bool :=
  !isNan left && !isNan right && (left == right || (left.toNat % 2 ^ 63 == 0 && right.toNat % 2 ^ 63 == 0))

/-- Rust's derived equality of numbers. -/
def Number.eq : Number → Number → Bool
  | .int left, .int right => left == right
  | .bigInt left, .bigInt right => left == right
  | .float left, .float right => floatEq left right
  | _, _ => false

mutual

/-- Rust's derived equality of values. -/
def Value.eq : Value → Value → Bool
  | .null, .null => true
  | .bool left, .bool right => left == right
  | .number left, .number right => left.eq right
  | .string left, .string right => left == right
  | .array left, .array right => Value.eqItems left right
  | .object left, .object right => Value.eqMembers left right
  | _, _ => false

/-- Equality of two arrays' items, in order. -/
def Value.eqItems : List Value → List Value → Bool
  | [], [] => true
  | left :: lefts, right :: rights => left.eq right && Value.eqItems lefts rights
  | _, _ => false

/-- Equality of two objects' members, in order. -/
def Value.eqMembers : List (String × Value) → List (String × Value) → Bool
  | [], [] => true
  | (name, left) :: lefts, (other, right) :: rights =>
    name == other && left.eq right && Value.eqMembers lefts rights
  | _, _ => false

end

instance : BEq Value := ⟨Value.eq⟩

inductive Error where
  | byteOrderMark
  | invalidSyntax (offset : Nat)
  | controlCharacter (offset : Nat)
  | invalidEscape (offset : Nat)
  | loneSurrogate (offset : Nat)
  | duplicateKey (offset : Nat)
  | nonFiniteNumber (offset : Nat)
  | integerTooLong (offset : Nat)
  | tooDeep (offset : Nat)
  | trailingData (offset : Nat)
  deriving DecidableEq, Repr

/-- The deepest nesting of arrays and objects a document may have. -/
def maxDepth : Nat := 512

/-- The most decimal digits an integer literal may have. -/
def maxIntegerDigits : Nat := 4300

/-- What is left to read, and the byte it starts at. -/
structure Parser where
  rest : List Char
  pos : Nat

/-- A function that reads some of the text. -/
abbrev Reader (α : Type) : Type := Parser → Except Error (α × Parser)

namespace Parser

/-- The refusal of whatever is next. -/
def unexpected (parser : Parser) : Error := .invalidSyntax parser.pos

def isWhitespace (character : Char) : Bool :=
  character == ' ' || character == '\t' || character == '\n' || character == '\r'

def isDigit (character : Char) : Bool := '0' ≤ character && character ≤ '9'

/-- The parser past the characters of a class at its start, each of one byte. -/
def skipWhile (parser : Parser) (accepts : Char → Bool) : Parser :=
  ⟨parser.rest.dropWhile accepts, parser.pos + (parser.rest.takeWhile accepts).length⟩

def skipWhitespace (parser : Parser) : Parser := parser.skipWhile isWhitespace

def eat (parser : Parser) (character : Char) : Option Parser :=
  match parser.rest with
  | next :: rest => if next = character then some ⟨rest, parser.pos + 1⟩ else none
  | [] => none

def literal (word : List Char) (value : Value) : Reader Value := fun parser =>
  if word.isPrefixOf parser.rest then
    .ok (value, ⟨parser.rest.drop word.length, parser.pos + word.length⟩)
  else .error parser.unexpected

def requiredDigits : Reader (List Char) := fun parser =>
  let digits := parser.rest.takeWhile isDigit
  if digits.isEmpty then .error parser.unexpected else .ok (digits, parser.skipWhile isDigit)

def sign (character : Char) (parser : Parser) : List Char × Parser :=
  match parser.eat character with
  | some parser => ([character], parser)
  | none => ([], parser)

def integral : Reader (List Char) := fun parser =>
  match parser.eat '0' with
  | some parser => .ok (['0'], parser)
  | none => requiredDigits parser

/-- The fraction, when a point is next. -/
def fraction : Reader (List Char) := fun parser =>
  match parser.eat '.' with
  | some parser => (requiredDigits parser).map fun read => ('.' :: read.1, read.2)
  | none => .ok ([], parser)

def scale (mark : Char) : Reader (List Char) := fun parser =>
  let (signed, after) :=
    match parser.eat '+' with
    | some parser => (['+'], parser)
    | none => sign '-' parser
  (requiredDigits after).map fun read => (mark :: signed ++ read.1, read.2)

/-- The exponent, when its mark is next. -/
def exponent : Reader (List Char) := fun parser =>
  match parser.eat 'e' with
  | some parser => scale 'e' parser
  | none =>
    match parser.eat 'E' with
    | some parser => scale 'E' parser
    | none => .ok ([], parser)

def fitsI64 (value : Int) : Bool := -(2 ^ 63) ≤ value && value < 2 ^ 63

/-- The digits of an integer literal without its sign. -/
def unsigned : List Char → List Char
  | '-' :: digits => digits
  | digits => digits

/-- The value of an integer literal. -/
def decimal (literal : List Char) : Int :=
  if literal.head? = some '-' then -(Nat.ofDigitChars 10 (unsigned literal) 0 : Int)
  else Nat.ofDigitChars 10 (unsigned literal) 0

def integer (literal : List Char) (offset : Nat) : Except Error Number :=
  if maxIntegerDigits < (unsigned literal).length then .error (.integerTooLong offset)
  else if fitsI64 (decimal literal) then .ok (.int (decimal literal))
  else .ok (.bigInt (String.ofList literal))

/-- A literal with a fraction or an exponent. -/
def float [Platform] (literal : List Char) (offset : Nat) : Except Error Number :=
  match Platform.parseFloat (String.ofList literal) with
  | some bits => .ok (.float bits)
  | none => .error (.nonFiniteNumber offset)

def number [Platform] : Reader Number := fun start => do
  let (signed, parser) := sign '-' start
  let (whole, parser) ← integral parser
  let (fractional, parser) ← fraction parser
  let (scaled, parser) ← exponent parser
  let read ←
    if fractional.isEmpty && scaled.isEmpty then integer (signed ++ whole) start.pos
    else float (signed ++ whole ++ fractional ++ scaled) start.pos
  .ok (read, parser)

/-- The value of a hexadecimal digit of either case. -/
def hexValue (character : Char) : Option Nat :=
  if '0' ≤ character ∧ character ≤ '9' then some (character.toNat - 48)
  else if 'a' ≤ character ∧ character ≤ 'f' then some (character.toNat - 87)
  else if 'A' ≤ character ∧ character ≤ 'F' then some (character.toNat - 55)
  else none

/-- Four hexadecimal digits of the escape at `offset`. -/
def hex4 (offset : Nat) : Reader Nat := fun parser =>
  match parser.rest with
  | first :: second :: third :: fourth :: rest =>
    match hexValue first, hexValue second, hexValue third, hexValue fourth with
    | some first, some second, some third, some fourth =>
      .ok (((first * 16 + second) * 16 + third) * 16 + fourth, ⟨rest, parser.pos + 4⟩)
    | _, _, _, _ => .error (.invalidEscape offset)
  | _ => .error (.invalidEscape offset)

def isHighSurrogate (unit : Nat) : Bool := 0xD800 ≤ unit && unit < 0xDC00

def isLowSurrogate (unit : Nat) : Bool := 0xDC00 ≤ unit && unit < 0xE000

/-- The low surrogate escape that must follow the high one at `offset`. -/
def lowSurrogate (offset : Nat) : Reader Nat := fun parser =>
  match parser.rest with
  | '\\' :: 'u' :: rest => do
      let (unit, after) ← hex4 parser.pos ⟨rest, parser.pos + 2⟩
      if isLowSurrogate unit then .ok (unit, after) else .error (.loneSurrogate offset)
  | _ => .error (.loneSurrogate offset)

def fromU32 (code offset : Nat) : Except Error Char :=
  if code.isValidChar then .ok (Char.ofNat code) else .error (.loneSurrogate offset)

def pairCode (high low : Nat) : Nat := 0x10000 + (high - 0xD800) * 1024 + (low - 0xDC00)

def unicode (offset : Nat) : Reader Char := fun parser => do
  let (unit, parser) ← hex4 offset parser
  if isHighSurrogate unit then do
    let (low, parser) ← lowSurrogate offset parser
    let character ← fromU32 (pairCode unit low) offset
    .ok (character, parser)
  else do
    let character ← fromU32 unit offset
    .ok (character, parser)

def named : Char → Option Char
  | '"' => some '"'
  | '\\' => some '\\'
  | '/' => some '/'
  | 'b' => some (Char.ofNat 0x8)
  | 'f' => some (Char.ofNat 0xC)
  | 'n' => some '\n'
  | 'r' => some '\r'
  | 't' => some '\t'
  | _ => none

/-- An escape past its backslash, which is at `offset`. -/
def escape (offset : Nat) : Reader Char := fun parser =>
  match parser.rest with
  | [] => .error (.invalidEscape offset)
  | mark :: rest =>
    if mark = 'u' then unicode offset ⟨rest, parser.pos + 1⟩
    else
      match named mark with
      | some character => .ok (character, ⟨rest, parser.pos + 1⟩)
      | none => .error (.invalidEscape offset)

/-- The characters of a string up to its closing quote. The count is at least the characters left, and
each round reads one or more. -/
def characters : Nat → Reader (List Char)
  | 0, parser => .error parser.unexpected
  | count + 1, parser =>
    match parser.rest with
    | [] => .error parser.unexpected
    | next :: rest =>
      if next = '"' then .ok ([], ⟨rest, parser.pos + 1⟩)
      else if next = '\\' then do
        let (character, parser) ← escape parser.pos ⟨rest, parser.pos + 1⟩
        let (decoded, parser) ← characters count parser
        .ok (character :: decoded, parser)
      else if next.toNat < 0x20 then .error (.controlCharacter parser.pos)
      else do
        let (decoded, parser) ← characters count ⟨rest, parser.pos + next.utf8Size⟩
        .ok (next :: decoded, parser)

/-- A string whose opening quote is next. -/
def string : Reader String := fun parser =>
  (characters parser.rest.length ⟨parser.rest.drop 1, parser.pos + 1⟩).map fun read =>
    (String.ofList read.1, read.2)

section

variable {α : Type}

/-- The separator after a member: whether the container ended. -/
def separator (close : Char) : Reader Bool := fun parser =>
  let parser := parser.skipWhitespace
  match parser.eat close with
  | some parser => .ok (true, parser)
  | none =>
    match parser.eat ',' with
    | some parser => .ok (false, parser.skipWhitespace)
    | none => .error parser.unexpected

/-- The elements of a container up to its end. The count is at least the characters left, and each
round reads one or more. -/
def elements (read : Reader α) (close : Char) : Nat → Reader (List α)
  | 0, parser => .error parser.unexpected
  | count + 1, parser => do
      let (first, parser) ← read parser
      let (closed, parser) ← separator close parser
      if closed then .ok ([first], parser)
      else do
        let (others, parser) ← elements read close count parser
        .ok (first :: others, parser)

/-- A container whose opening bracket is next. -/
def container (read : Reader α) (close : Char) : Reader (List α) := fun parser =>
  let parser := skipWhitespace ⟨parser.rest.drop 1, parser.pos + 1⟩
  match parser.eat close with
  | some parser => .ok ([], parser)
  | none => elements read close parser.rest.length parser

def member (value : Reader Value) : Reader (String × Value) := fun parser =>
  if parser.rest.head? = some '"' then do
    let (key, parser) ← string parser
    let parser := parser.skipWhitespace
    match parser.eat ':' with
    | some parser => (value parser.skipWhitespace).map fun read => ((key, read.1), read.2)
    | none => .error parser.unexpected
  else .error parser.unexpected

/-- Whether two neighbours of a list are equal. -/
def repeats : List String → Bool
  | first :: second :: rest => first == second || repeats (second :: rest)
  | _ => false

/-- Refuses an object that names a field twice. -/
def unique (members : List (String × Value)) (offset : Nat) : Except Error Value :=
  if repeats ((members.map Prod.fst).insertionSort (· ≤ ·)) then .error (.duplicateKey offset)
  else .ok (.object members)

def array (value : Reader Value) : Reader Value := fun parser =>
  (container value ']' parser).map fun read => (.array read.1, read.2)

def object (value : Reader Value) : Reader Value := fun start => do
  let (members, parser) ← container (member value) '}' start
  let value ← unique members start.pos
  .ok (value, parser)

def dispatch [Platform] (array object : Reader Value) : Reader Value := fun parser =>
  match parser.rest.head? with
  | some '{' => object parser
  | some '[' => array parser
  | some '"' => (string parser).map fun read => (.string read.1, read.2)
  | some 't' => literal ['t', 'r', 'u', 'e'] (.bool true) parser
  | some 'f' => literal ['f', 'a', 'l', 's', 'e'] (.bool false) parser
  | some 'n' => literal ['n', 'u', 'l', 'l'] .null parser
  | some character =>
    if character = '-' ∨ isDigit character = true then
      (number parser).map fun read => (.number read.1, read.2)
    else .error parser.unexpected
  | none => .error parser.unexpected

def value [Platform] : Nat → Reader Value
  | 0 => dispatch (fun parser => .error (.tooDeep parser.pos)) fun parser => .error (.tooDeep parser.pos)
  | levels + 1 => dispatch (array (value levels)) (object (value levels))

def document [Platform] (parser : Parser) : Except Error Value := do
  let (read, parser) ← value maxDepth parser.skipWhitespace
  let parser := parser.skipWhitespace
  if parser.rest.isEmpty then .ok read else .error (.trailingData parser.pos)

end

end Parser

/-- Decodes one JSON document with surrounding whitespace. -/
def parse [Platform] (text : String) : Except Error Value :=
  if text.toList.head? = some (Char.ofNat 0xFEFF) then .error .byteOrderMark
  else Parser.document ⟨text.toList, 0⟩

end ShimpzTeams.StrictJson
