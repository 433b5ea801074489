import ShimpzTeams.Routines.Admission

/-!
# What a recording of a Routine reads, and where each value comes from

A recording span is the person's consecutive fresh sends, each with its own
words, its zone, its start, and its successful Action calls in dispatch order. A
kept value is the exact JSON with every position that may be secret withheld whole
and recorded by its pointer. An input value is a literal, the run date, a text whose
dates each run writes, a copy of an earlier result, or a question to the person.
-/

namespace ShimpzTeams.Routines.Recorder

open StrictJson Protocol Library

/-- What is read from a person's texts: the protocol's phrase tables, the numbers a line writes, and
the dates a text writes near a day. -/
class SpanReader where
  /-- The schedules a segment states. -/
  stated : String → List Value
  /-- The output choices a segment states. -/
  outputs : String → List String
  /-- The zones a segment names. -/
  zones : String → List String
  /-- Every whole number a line writes on its own. -/
  numberTokens : String → List String
  /-- The dates a line writes near a day, unless the search gives up. -/
  dates : String → Date → Option (List Date)
  /-- The template of a text near a day in an interface language, the named dates kept as written. -/
  template : String → Date → Option String → (Date → Bool) → Option (List Value)

/-- One kept value: exact JSON with every withheld subtree emptied to null. -/
structure Kept where
  value : Value
  /-- The pointer of every withheld position. -/
  withheld : List String
  /-- The value was larger than its bound and is withheld whole. -/
  oversize : Bool

/-- Whether nothing on the way to the pointer, at it, or under it was withheld. -/
def Kept.available (kept : Kept) (pointer : String) : Bool :=
  !kept.withheld.any fun item =>
    item.isEmpty || item == pointer || (afterText (item ++ "/") pointer.toList).isSome ||
      (afterText (pointer ++ "/") item.toList).isSome

/-- One RFC 6901 reference token. -/
def escape (token : String) : List Char :=
  token.toList.flatMap fun character =>
    if character == '~' then ['~', '0'] else if character == '/' then ['~', '1'] else [character]

mutual

def exposes (secrets : List String) : Value → Bool
  | .string text => secrets.any fun secret => holdsText secret text.toList
  | .array items => itemsExpose secrets items
  | .object members => membersExpose secrets members
  | _ => false

def itemsExpose (secrets : List String) : List Value → Bool
  | [] => false
  | item :: rest => exposes secrets item || itemsExpose secrets rest

def membersExpose (secrets : List String) : List (String × Value) → Bool
  | [] => false
  | (key, item) :: rest =>
    ((secrets.any fun secret => holdsText secret key.toList) || exposes secrets item) || membersExpose secrets rest

end

/-- Every value a span was given or returned in secret. -/
structure Protection where
  values : List String
  /-- The set outgrew its bound, for good. -/
  lost : Bool

/-- One successful Action call. -/
structure Occurrence where
  assistant : String
  action : String
  pin : String
  /-- Whether the reviewed contract proves the Action read-only. -/
  readOnly : Bool
  input : Kept
  result : Kept

structure Send where
  /-- The person's authored segments of the message. -/
  person : List String
  /-- The person's own lines of the conversation window the request carried. -/
  window : List String
  /-- The browser's zone. -/
  timezone : Option String
  startedAt : Int
  /-- The chat's interface language. -/
  locale : Option String
  occurrences : List Occurrence

structure Target where
  value : Value
  label : Option String

abbrev ActionKey := String × String

/-- The choice a target question binds. -/
structure Pending where
  action : ActionKey
  member : String
  /-- Every target the input may take. -/
  targets : List Target
  /-- The target the person chose, once chosen. -/
  chosen : Option Value

/-- One call a rerun must make. -/
structure Slot where
  action : ActionKey
  /-- What each input member must be: its kind and value. -/
  inputs : List (String × String × Value)
  sources : List (String × ActionKey)

/-- The question a span last asked, as far as a later recording reads it. -/
structure Asked where
  /-- How many sends the span held when it asked: only later sends answer it. -/
  after : Nat
  pending : Option Pending
  /-- Every target choice the person already answered. -/
  chosen : List Pending
  /-- How many sends the span held when it first asked for work to run again. -/
  repairFrom : Option Nat

/-- What Team may ask before a card. -/
inductive QuestionCode where
  | scheduleUnstated
  | outputUnstated
  | bindingAmbiguous
  | rerun
  deriving DecidableEq

/-- What Team asks the person before a card. -/
structure Question where
  code : QuestionCode
  options : List Target := []
  pending : Option Pending := none
  manifest : Option (List Slot) := none
  chosen : List Pending := []
  repairFrom : Option Nat := none

inductive RecordingError where
  | unavailable
  | recordAgain
  | empty
  | tooLarge
  | secretLiteral
  | ambiguous
  | conflict
  | cyclic
  | unverified
  | plan (refusal : PlanError)
  deriving DecidableEq

/-- Why a recording step stopped short of a plan. -/
inductive Stop where
  | ask (question : Question)
  | refuse (refusal : RecordingError)

/-- A replaced Routine: its plan, and the schedule a replacement keeps unless another is stated. -/
structure Existing where
  plan : Value
  schedule : Value

/-- Each step's input origins, by step id and member. -/
abbrev Origins := List (String × List (String × String))

/-- The recorded plan document, each input's origin, the permitted Actions, and when it runs. -/
structure Recorded where
  document : Value
  origins : Origins
  permitted : List Value
  schedule : Value
  timezoneSource : String
  chosen : List Pending
  repairFrom : Option Nat

/-- What a recording span ends in. -/
inductive Recording where
  | recorded (kept : Recorded)
  | asked (question : Question)

/-- The person's texts, the numbers they write, and the values the span protects. -/
structure Known where
  texts : List String
  numbers : List String
  secrets : List String

structure Call where
  /-- Its dispatch index in the span. -/
  index : Nat
  /-- Its send's position in the span. -/
  send : Nat
  occurrence : Occurrence

def Call.action (call : Call) : ActionKey := (call.occurrence.assistant, call.occurrence.action)

/-- Whether its reviewed contract proves it read-only. -/
def Call.readOnly (call : Call) : Bool := call.occurrence.readOnly

/-- A call's classified inputs as sources, a copied value's naming its call as `node`, and their
origins. -/
abbrev Classified := List (String × Value) × List (String × String)

/-- Everything a recording reads and what it derives while it plans. -/
structure Context where
  sends : List Send
  calls : List Call
  known : Known
  /-- The Routine's zone and where it came from. -/
  zone : String × String
  asked : Option Asked
  contracts : Contracts
  /-- The dispatch indexes of the narrowed work. -/
  work : List Nat := []
  /-- Every call's source representative. -/
  classes : List (Nat × Nat) := []

/-- A call's source representative. -/
def Context.classOf (context : Context) (index : Nat) : Nat :=
  (OrderedMap.get id index context.classes).getD index

section

variable [Platform] [SpanReader]

/-- `json.dumps(value, ensure_ascii=False)`: insertion order and Python's default separators. -/
def jsonText (value : Value) : String := dumps value ⟨false, false, false⟩

def Pending.sameChoice (left right : Pending) : Bool :=
  left.action == right.action && left.member == right.member &&
    left.targets.length == right.targets.length &&
    (left.targets.zip right.targets).all fun pair =>
      pyEq pair.1.value pair.2.value && pair.1.label == pair.2.label

def Pending.offers (pending : Pending) (written : String) : Bool :=
  pending.targets.any fun target => jsonText target.value == written

def Known.names (known : Known) : Value → Bool
  | .string written =>
    !written.isEmpty && known.texts.any fun line => holdsText written line.toList
  | .number number => known.numbers.contains (canonical (.number number))
  | _ => false

/-- The person's texts, with every whole number token each one writes on its own. -/
def knownTexts (texts : List String) (protection : Protection) : Known where
  texts := texts
  numbers := texts.flatMap SpanReader.numberTokens
  secrets := protection.values

/-- The segments of a span, in order. -/
def segments (sends : List Send) : List String := sends.flatMap Send.person

/-- Every reading of the latest authored segment that `read` finds any in. -/
def latestReading {α : Type} (sends : List Send) (read : String → List α) : List α :=
  (((segments sends).map read).filter fun found => !found.isEmpty).getLast?.getD []

def statedSchedules (sends : List Send) : List Value := latestReading sends SpanReader.stated

def statedOutputs (sends : List Send) : List String := latestReading sends SpanReader.outputs

def browserZone (sends : List Send) : String × String :=
  match sends.getLast?.bind Send.timezone with
  | some browser => (browser, "browser")
  | none => ("UTC", "none")

/-- `zone`: the one zone the latest authored segment naming any names, else the browser's. -/
def spanZone (sends : List Send) : String × String :=
  match (segments sends).reverse.find? fun segment => !(SpanReader.zones segment).isEmpty with
  | some segment =>
    match SpanReader.zones segment with
    | [one] => (one, "person")
    | _ => browserZone sends
  | none => browserZone sends

def segmentLines (segments : List String) : List String :=
  segments.flatMap fun segment => (segment.toList.splitOn '\n').map String.ofList

/-- Every call of the span in dispatch order. -/
def callsOf (sends : List Send) : List Call :=
  ((sends.zipIdx.flatMap fun entry =>
    entry.1.occurrences.map fun occurrence => (entry.2, occurrence)).zipIdx).map fun entry =>
      ⟨entry.2, entry.1.1, entry.1.2⟩

def atPin (contracts : Contracts) (call : Call) : Bool :=
  (contracts call.occurrence.assistant call.occurrence.action).any fun contract =>
    contract.pin == call.occurrence.pin

def spanCalls (sends : List Send) (contracts : Contracts) : Except RecordingError (List Call) :=
  if (callsOf sends).all (atPin contracts) then .ok (callsOf sends)
  else .error (.plan .pinDrift)

end

/-- A kept value larger than this is withheld whole. -/
def maxKeptBytes : Nat := 256 * 1024

mutual

def strings : Value → List String
  | .string text => [text]
  | .array items => itemStrings items
  | .object members => memberStrings members
  | _ => []

def itemStrings : List Value → List String
  | [] => []
  | item :: rest => strings item ++ itemStrings rest

def memberStrings : List (String × Value) → List String
  | [] => []
  | (_, item) :: rest => strings item ++ memberStrings rest

end

def memberPointer (place key : String) : String := place ++ "/" ++ String.ofList (escape key)

def itemPointer (place : String) (index : Nat) : String := place ++ "/" ++ toString index

section

variable [Platform]

/-- A credential-shaped or injected string, or an object holding such a key. -/
def unsafeValue (protectedValues : List String) : Value → Bool
  | .object found =>
    found.any fun member => resemblesCredential member.1 || protects member.1 protectedValues
  | .string found => resemblesCredential found || protects found protectedValues
  | _ => false

/-- The subschemas that apply at one position, and whether it may be secret; an unwalkable schema may
be. -/
def secretAt (root : Value) (sub : Sub) (name : String) (value : Value) : List Value × Bool :=
  match applicable root sub (.value value) with
  | .ok candidates => (candidates, secretPosition root name candidates)
  | .error _ => ([], true)

theorem secretAt_error {root sub name value refusal}
    (h : applicable root sub (.value value) = .error refusal) : secretAt root sub name value = ([], true) := by
  rw [secretAt, h]

theorem secretAt_ok {root sub name value candidates} (h : applicable root sub (.value value) = .ok candidates) :
    secretAt root sub name value = (candidates, secretPosition root name candidates) := by
  rw [secretAt, h]

variable [SchemaEngine]

/-- `kept`: a value with what may be secret emptied, and the pointers withheld, with some levels of
nesting left. -/
def keptAt (root : Value) (protectedValues : List String) :
    Nat → Value → Sub → String → String → Except PlanError (Value × List String)
  | 0, _, _, _, place => .ok (.null, [place])
  | levels + 1, value, sub, name, place =>
    let found := secretAt root sub name value
    if found.2 || unsafeValue protectedValues value then .ok (.null, [place])
    else
      match value with
      | .object members => do
          let kept ← members.mapM fun member => do
            let schemas ← memberSchemas found.1 member.1
            let kept ← keptAt root protectedValues levels member.2 schemas member.1
              (memberPointer place member.1)
            .ok ((member.1, kept.1), kept.2)
          .ok (.object (kept.map Prod.fst), (kept.map Prod.snd).flatten)
      | .array items => do
          let kept ← items.zipIdx.mapM fun item =>
            keptAt root protectedValues levels item.1 (itemSchemas found.1 item.2) name
              (itemPointer place item.2)
          .ok (.array (kept.map Prod.fst), (kept.map Prod.snd).flatten)
      | _ => .ok (value, [])

/-- `keep`: the kept form of one value under its reviewed schema. -/
def keep (value schema : Value) (protectedValues : List String) : Except PlanError Kept := do
  let kept ← keptAt (rootOf schema) (protectedOf protectedValues) (maxSafeOutputDepth + 1) value
    (.node (rootOf schema)) "" ""
  if maxKeptBytes < encodedBytes kept.1 then .ok ⟨.null, [""], true⟩
  else .ok ⟨kept.1, OrderedMap.setOf id kept.2, false⟩

/-- `collect`: the strings at positions that may be secret, with some levels of nesting left. -/
def secretStrings (root : Value) : Nat → Value → Sub → String → Except PlanError (List String)
  | 0, value, _, _ => .ok (strings value)
  | levels + 1, value, sub, name =>
    let found := secretAt root sub name value
    if found.2 then .ok (strings value)
    else
      match value with
      | .object members => do
          let inside ← members.mapM fun member => do
            let schemas ← memberSchemas found.1 member.1
            secretStrings root levels member.2 schemas member.1
          .ok inside.flatten
      | .array items => do
          let inside ← items.zipIdx.mapM fun item =>
            secretStrings root levels item.1 (itemSchemas found.1 item.2) name
          .ok inside.flatten
      | _ => .ok []

/-- `secret_values`: every string a result holds at a position its reviewed schema may make secret. -/
def secretValues (value schema : Value) : Except PlanError (List String) :=
  secretStrings (rootOf schema) (maxSafeOutputDepth + 1) value (.node (rootOf schema)) ""

end

/-- The members whose text names an item to a person. -/
def nameMembers : List String := ["name", "title", "label", "display_name", "hostname", "domain"]

/-- The shortest string taken as an identifier only a result can source. -/
def minIdentifierChars : Nat := 6

/-- The fewest digits of a whole number taken as such an identifier. -/
def minIdentifierDigits : Nat := 6

/-- The shortest text a selector's named member holds. -/
def minSelectorChars : Nat := 2

def maxQuestionOptions : Nat := 8

/-- The longest target name or string target. -/
def maxQuestionOptionChars : Nat := 120

/-- A target's exact JSON text at most. -/
def maxQuestionValueChars : Nat := 2 * maxQuestionOptionChars + 2

/-- Where one recorded input value comes from. -/
inductive Origin where
  | request
  | clock
  | utcLiteral
  | assistant
  | template
  | sourced
  | unsourced
  deriving DecidableEq

section

variable [Platform]

/-- Whether a value is long enough, or a container, to be copied from a result. -/
def referable (value : Value) : Bool :=
  match value with
  | .string written => minIdentifierChars ≤ written.length
  | .number (.float _) => false
  | .number _ =>
    minIdentifierDigits ≤
      ((jsonText value).toList.dropWhile fun character => character == '-').length
  | .object found => !found.isEmpty
  | .array items => !items.isEmpty
  | _ => false

/-- Whether a referable value is shaped like an identifier: one word of text, or a whole number. -/
def identifier (value : Value) : Bool :=
  isInteger value || (string value).any fun written => !written.toList.any isspace

/-- A position inside a kept result: its tokens, and which of them index an array. -/
abbrev Position := List (String × Bool)

mutual

def positions (value : Value) : Position → Value → List Position
  | place, .object found =>
    (if same (.object found) value then [place] else []) ++ positionsOfMembers value place found
  | place, .array items =>
    (if same (.array items) value then [place] else []) ++ positionsOfItems value place 0 items
  | place, node => if same node value then [place] else []

def positionsOfMembers (value : Value) : Position → List (String × Value) → List Position
  | _, [] => []
  | place, (key, item) :: rest =>
    positions value (place ++ [(key, false)]) item ++ positionsOfMembers value place rest

def positionsOfItems (value : Value) : Position → Nat → List Value → List Position
  | _, _, [] => []
  | place, index, item :: rest =>
    positions value (place ++ [(toString index, true)]) item ++ positionsOfItems value place (index + 1) rest

end

def pointerOf (tokens : List String) : String :=
  String.ofList (tokens.flatMap fun token => '/' :: escape token)

def reachStep (value : Value) (token : String) : Value :=
  match value with
  | .array items => ((clockNumber token.toList).bind fun index => items[index]?).getD .null
  | value => (value.get token).getD .null

/-- The node a position's tokens reach inside a kept value. -/
def reach (value : Value) (tokens : List String) : Value := tokens.foldl reachStep value

/-- The node an item's member tokens reach; they cross no array. -/
def reached : Value → List String → Option Value
  | value, [] => some value
  | value, token :: rest => (value.get token).bind fun next => reached next rest

def targetValue (value : Option Value) : Option Value :=
  value.filter fun value => isString value || isInteger value

def isTarget (written : String) : Bool :=
  1 ≤ written.length && written.length ≤ maxQuestionValueChars &&
    match parse written with
    | .error _ => false
    | .ok decoded =>
      (if isString decoded then plain decoded maxQuestionOptionChars
        else isInteger decoded && written.length ≤ maxQuestionOptionChars) &&
        jsonText decoded == written

def offered (option : Target) : Bool :=
  isTarget (jsonText option.value) && option.label.all fun label => plain (.string label) maxQuestionOptionChars

def label (item : Value) : Option String :=
  match ((members item).filter fun member => nameMembers.contains member.1).filterMap
      (fun member => (string member.2).filter fun name =>
        1 ≤ name.length && name.length ≤ maxQuestionOptionChars) with
  | [one] => some one
  | _ => none

/-- Every array item as a target, labelled by its one name-like member. -/
def listed (items : List Value) (rest : List String) : List Target :=
  items.filterMap fun item =>
    (targetValue (reached item rest)).map fun chosen => ⟨chosen, label item⟩

def targetsOf (items : List Value) (named : List (String × Value)) (rest : List String) : List Target :=
  named.flatMap fun constant =>
    (items.filter fun item => (item.get constant.1).any fun member => same member constant.2).filterMap
      fun item => (targetValue (reached item rest)).map fun chosen => ⟨chosen, string constant.2⟩

/-- Whether a member's value can select an item: one the person named. -/
def selectable (constant : Value) (known : Known) : Bool :=
  match constant with
  | .string written => minSelectorChars ≤ written.length && known.names constant
  | constant => isInteger constant && known.names constant

/-- Whether no other item holds the same member value, and none hides that member where it could. -/
def distinct (result : Kept) (arrayTokens : List String) (items : List Value) (chosen : Nat)
    (constant : String × Value) : Bool :=
  (items.zipIdx.filter fun entry => entry.2 != chosen).all fun entry =>
    result.available (pointerOf (arrayTokens ++ [toString entry.2, constant.1])) &&
      !(entry.1.get constant.1).any fun member => same member constant.2

end

section

variable [Platform]

def sentValue (call : Call) (member : String) : Option String :=
  if !call.occurrence.input.withheld.isEmpty then none
  else (call.occurrence.input.value.get member).map jsonText

def sentTarget (call : Call) (binding : Pending) : Option String :=
  if call.action != binding.action then none
  else (sentValue call binding.member).filter binding.offers

/-- The target whose exact JSON text the person's latest answer is. -/
def selection (sends : List Send) (after : Nat) (pending : Pending) : Option Value :=
  (segments (sends.drop after)).reverse.findSome? fun segment =>
    (pending.targets.find? fun target => jsonText target.value == strip segment).map Target.value

/-- Every target choice the span holds, as the person's answers settle them. -/
def targetChoices (sends : List Send) : Option Asked → List Pending
  | none => []
  | some asked =>
    match asked.pending with
    | none => asked.chosen
    | some pending =>
      let chosen := match selection sends asked.after pending with
        | some selected => some selected
        | none => pending.chosen
      asked.chosen ++ [{ pending with chosen }]

def bindingFor (bindings : List Pending) (call : Call) (member : String) (value : Value) : Option Pending :=
  bindings.find? fun binding =>
    binding.action == call.action && binding.member == member && binding.offers (jsonText value)

def declines (binding : Pending) (written : String) (call : Call) : Bool :=
  (sentTarget call binding).any fun sent => sent != written

/-- The work without its calls that sent a target of one choice the person did not choose, when one of
its calls sent theirs; a changing call never drops. -/
def narrowedBy (binding : Pending) (work : List Call) : List Call :=
  match binding.chosen with
  | none => work
  | some chosen =>
    let written := jsonText chosen
    let others := (work.filter (declines binding written)).map Call.index
    if (work.any fun call => sentTarget call binding == some written) &&
        (work.filter fun call => others.contains call.index).all Call.readOnly then
      work.filter fun call => !others.contains call.index
    else work

def narrowed (choices : List Pending) (work : List Call) : List Call :=
  choices.foldl (fun work binding => narrowedBy binding work) work

end

def availablePositions (call : Call) (value : Value) : List Position :=
  (positions value [] call.occurrence.result.value).filter fun place =>
    call.occurrence.result.available (pointerOf (place.map Prod.fst))

/-- Each source representative whose replayed result holds a value, and where; neither the consumer nor
any exact twin of it is its own source. -/
def holders (context : Context) (consumer : Call) (value : Value) : List (Nat × List Position) :=
  context.calls.foldl (fun found call =>
    let representative := context.classOf call.index
    if representative == context.classOf consumer.index || (OrderedMap.get id representative found).isSome then found
    else
      let available := availablePositions call value
      if available.isEmpty then found else OrderedMap.put id representative available found) []

variable [Platform] [SpanReader]

/-- The date of an instant in a zone, `none` when the zone does not load. -/
def dateAt (instant : Int) (timezone : String) : Option Date :=
  (zone (text timezone)).bind fun zone => Date.ofInstant instant zone

def Context.startedAt (context : Context) (call : Call) : Int :=
  (context.sends[call.send]?.map Send.startedAt).getD 0

def dateOrigin (context : Context) (call : Call) (value : Value) : Option Origin :=
  (string value).bind fun written =>
    if (dateAt (context.startedAt call) context.zone.1).any fun day => day.isoformat == written then
      some .clock
    else if (dateAt (context.startedAt call) "UTC").any fun day => day.isoformat == written then
      some .utcLiteral
    else none

def dated (context : Context) (call : Call) (written : String) : Option (Value × String) := do
  let send ← context.sends[call.send]?
  let day ← dateAt send.startedAt context.zone.1
  let named ← context.known.texts.mapM fun line => SpanReader.dates line day
  let parts ← SpanReader.template written day send.locale fun date => named.flatten.contains date
  some (objectOf [("kind", text "run_clock"), ("format", text "text"), ("parts", .array parts)], "clock")

omit [SpanReader] in
/-- Whether the person named the value: the target they chose, or, never for a target, a value their
text holds. -/
def personNamed (known : Known) (pending : Option Pending) (value : Value) : Bool :=
  match pending.filter fun pending => pending.offers (jsonText value) with
  | some pending => pending.chosen.any fun chosen => jsonText chosen == jsonText value
  | none => known.names value

def fromWork (context : Context) (consumer : Call) (found : List (Nat × List Position)) : List (Nat × List Position) :=
  let ran := context.work.map context.classOf
  if !ran.contains (context.classOf consumer.index) then found
  else
    let kept := found.filter fun entry => ran.contains entry.1
    if kept.length == 1 then kept else found

/-- Where one input value comes from, by the first rule that applies. -/
def originOf (context : Context) (call : Call) (value : Value) (pending : Option Pending) : Origin :=
  if personNamed context.known pending value then .request
  else
    match dateOrigin context call value with
    | some found => found
    | none =>
      if !referable value then .assistant
      else if !(holders context call value).isEmpty then .sourced
      else if (string value).any fun written => (dated context call written).isSome then .template
      else if identifier value then .unsourced
      else .assistant

def literal (value : Value) : Value := objectOf [("kind", text "literal"), ("value", value)]

/-- How one position of a source's result is read. -/
inductive Binding where
  | pointer (node : Nat) (pointer : String)
  | selector (node : Nat) (pointer : String) (condition : String × Value) (item : String)
  | options (targets : List Target)

/-- A copied value's source before its plan is numbered: its source call as `node`. -/
def Binding.source : Binding → Option Value
  | .pointer node written => some (objectOf [("node", int node), ("pointer", text written)])
  | .selector node written condition item =>
    some (objectOf [("node", int node), ("pointer", text written), ("where", .object [condition]),
      ("item", text item)])
  | .options _ => none

/-- Whether a position is read through one array item. -/
def Binding.isSelector : Binding → Bool
  | .selector .. => true
  | _ => false

def singling (result : Kept) (arrayTokens : List String) (items : List Value) (chosen : Nat)
    (named : List (String × Value)) : List (String × Value) :=
  let unique := named.filter (distinct result arrayTokens items chosen)
  let byName := unique.filter fun constant => nameMembers.contains constant.1
  if 1 < unique.length && !byName.isEmpty then byName else unique

/-- How a position inside one array is read. -/
def arrayBinding (context : Context) (node : Nat) (result : Kept) (arrayTokens : List String)
    (token : String) (rest : List String) : Binding :=
  let items := elements (reach result.value arrayTokens)
  -- an index that is not one names no item
  let chosen := (clockNumber token.toList).getD items.length
  let named := (members (items[chosen]?.getD .null)).filter fun member =>
    rest.head? != some member.1 && selectable member.2 context.known
  match singling result arrayTokens items chosen named with
  | [constant] => .selector node (pointerOf arrayTokens) constant (pointerOf rest)
  | _ => if named.isEmpty then .options (listed items rest) else .options (targetsOf items named rest)

/-- How one position is read: its pointer outside arrays, or through one array by the member the
person named, never by an index. -/
def bindingOf (context : Context) (node : Nat) (place : Position) : Binding :=
  let tokens := place.map Prod.fst
  match (place.zipIdx.filter fun entry => entry.1.2).map Prod.snd with
  | [] => .pointer node (pointerOf tokens)
  | [crossed] =>
    match context.calls[node]?, tokens[crossed]? with
    | some call, some token =>
      arrayBinding context node call.occurrence.result (tokens.take crossed) token
        (tokens.drop (crossed + 1))
    | _, _ => .options []
  | _ => .options []

/-- The choices a question offers: each once, none that the span protects, no protected label. -/
def choicesOf (secrets : List String) (options : List Target) : List Target :=
  options.foldl (fun choices option =>
    if exposes secrets (text (jsonText option.value)) then choices
    else
      let option := if option.label.any fun label => exposes secrets (text label) then
        { option with label := none } else option
      if (choices.all fun item => !pyEq option.value item.value) && offered option then
        choices ++ [option]
      else choices) []

/-- The question which target an input means; a container is never chosen and refuses. -/
def ambiguous (context : Context) (call : Call) (member : String) (value : Value) (options : List Target) : Stop :=
  match value with
  | .object _ | .array _ => .refuse .ambiguous
  | _ =>
    let pending : Pending := ⟨call.action, member, choicesOf context.known.secrets options, none⟩
    .ask { code := .bindingAmbiguous
           options := if maxQuestionOptions < pending.targets.length then [] else pending.targets
           pending := some pending }

def sourceAt (context : Context) (call : Call) (member : String) (value : Value) (node : Nat)
    (places : List Position) : Except Stop Value :=
  let bindings := places.map (bindingOf context node)
  let single := match bindings with
    | [one] => one.source
    | _ => none
  let selected := match bindings.filter Binding.isSelector with
    | [one] => one.source
    | _ => none
  match single.or selected with
  | some source => .ok source
  | none => .error (ambiguous context call member value (bindings.flatMap fun item =>
    match item with
    | .options (first :: rest) => first :: rest
    | _ => [⟨value, none⟩]))

def sourced (context : Context) (call : Call) (member : String) (value : Value) : Except Stop Value :=
  let found := holders context call value
  let found := if 1 < found.length then fromWork context call found else found
  match found with
  | [] => .error (.ask { code := .rerun })
  | [(node, places)] => sourceAt context call member value node places
  | _ => .error (ambiguous context call member value [⟨value, none⟩])

/-- Refuses a reference no plan pointer can hold, or whose path or selector the span protects. -/
def unexposed (source : Value) (known : Known) : Except RecordingError Unit :=
  let pointers := [(string (fieldOf source "pointer")).getD "", (string (fieldOf source "item")).getD ""]
  match pointers.mapM pointerTokensOf with
  | none => .error .tooLarge
  | some tokens =>
    if exposes known.secrets (.array (pointers.map text ++ tokens.flatten.map text ++
        [(source.get "where").getD (.object [])])) then .error .secretLiteral
    else .ok ()

/-- The question about a value again, or the work run again once the person chose another target. -/
def askedAgain (pending : Option Pending) (question : Question) : Stop :=
  match pending.filter fun pending =>
      pending.chosen.isSome && question.pending.any fun asked => asked.sameChoice pending with
  | some pending => .ask { code := .rerun, pending := some pending }
  | none => .ask question

/-- A referable value's source, or the question about it until the person answers it. -/
def bound (context : Context) (call : Call) (member : String) (value : Value)
    (pending : Option Pending) : Except Stop (Value × String) :=
  match sourced context call member value with
  | .error (.ask question) => .error (askedAgain pending question)
  | .error (.refuse refusal) => .error (.refuse refusal)
  | .ok source =>
    match unexposed source context.known with
    | .error refusal => .error (.refuse refusal)
    | .ok () => .ok (source, if (source.get "where").isSome then "selector" else "step")

def classified (context : Context) (call : Call) (member : String) (value : Value) : Except Stop (Value × String) :=
  let pending := bindingFor (targetChoices context.sends context.asked) call member value
  match originOf context call value pending with
  | .request => .ok (literal value, "request")
  | .clock => .ok (objectOf [("kind", text "run_clock"), ("format", text "date")], "clock")
  | .template =>
    match dated context call ((string value).getD "") with
    | some found => .ok found
    | none => .error (.refuse .unverified)
  | .sourced | .unsourced => bound context call member value pending
  | .utcLiteral | .assistant => .ok (literal value, "assistant")

variable [SchemaEngine]

/-- Whether a whole input, every member taken as a literal, reaches a secret destination. -/
def secretLiteral (schema supplied : Value) : Except PlanError Bool :=
  secretLiteralAt schema (maxSecretDepth + 1) "" (some supplied) (.node schema)

def classifyCall (context : Context) (call : Call) : Except Stop Classified :=
  let given := call.occurrence.input
  let schema := ((contracts context call).map ActionContract.inputSchema).getD .null
  if given.oversize then .error (.refuse .tooLarge)
  else if !given.withheld.isEmpty || !isObject given.value ||
      exposes context.known.secrets given.value then .error (.refuse .secretLiteral)
  else if (secretLiteral schema given.value).toOption.getD true then .error (.refuse .secretLiteral)
  else do
    let found ← (members given.value).mapM fun member =>
      (classified context call member.1 member.2).map fun source => (member.1, source)
    .ok (found.map fun entry => (entry.1, entry.2.1), found.map fun entry => (entry.1, entry.2.2))
where
  contracts (context : Context) (call : Call) : Option ActionContract :=
    context.contracts call.occurrence.assistant call.occurrence.action

end ShimpzTeams.Routines.Recorder
