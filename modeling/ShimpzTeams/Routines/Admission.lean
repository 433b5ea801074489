import ShimpzTeams.Library.OrderedMap
import ShimpzTeams.Routines.Output

/-!
# Admitting a plan and resolving its inputs

A plan is admitted against the exact contracts of the Actions it names. A run
keeps only the values later steps select from a completed one, and each step's
input is resolved from literals, the run's start instant and those selections.
-/

namespace ShimpzTeams.Routines

open StrictJson Protocol Library

/-- One step's fully resolved input, canonical. -/
def maxResolvedInputBytes : Nat := 128 * 1024

/-- The selections one run retains, canonical, at most. -/
def maxRetainedBytes : Nat := 128 * 1024

structure Step where
  stepId : String
  assistantId : String
  action : String
  pin : String
  /-- Each input member's source, in the document's order. -/
  inputs : List (String × Value)
  outputSchema : Value
  inputSchema : Value

/-- One selection from a step's output. -/
structure Selector where
  pointer : String
  /-- The canonical `where` text, empty when the pointer alone selects. -/
  whereText : String
  item : String
  deriving DecidableEq, Repr

abbrev Key := String × Selector

def Selector.parts (selector : Selector) : List String :=
  [selector.pointer, selector.whereText, selector.item]

/-- What orders keys: the step, then the selector's parts. -/
def keyParts (key : Key) : List String := key.1 :: key.2.parts

structure Plan where
  timezone : String
  steps : List Step
  /-- The `sha256:` digest of its canonical document. -/
  digest : String
  output : Value

/-- What a plan needs of one Action. -/
structure ActionContract where
  pin : String
  inputSchema : Value
  inputFiles : List String
  outputSchema : Value
  readOnly : Bool
  storedInputs : List String

abbrev Contracts := String → String → Option ActionContract

section

variable [Platform]

def isStepOutput (source : Value) : Bool := string (fieldOf source "kind") == some "step_output"

/-- A `step_output` source's complete selection key. -/
def selector (source : Value) : Key :=
  ((string (fieldOf source "step")).getD "",
    { pointer := (string (fieldOf source "pointer")).getD ""
      whereText := if isNull (fieldOf source "where") then "" else canonical (fieldOf source "where")
      item := (string (fieldOf source "item")).getD "" })

/-- The step whose result a completed run shows. -/
def Plan.shown (plan : Plan) : Option Step :=
  (string (fieldOf plan.output "mode")).bind fun mode =>
    if shownModes.contains mode then plan.steps.getLast? else none

def Plan.sources (plan : Plan) : List Value :=
  plan.steps.flatMap fun step => step.inputs.map Prod.snd

def Plan.references (plan : Plan) (stepId : String) : List Selector :=
  OrderedMap.setOf Selector.parts
    ((plan.sources.filter fun source =>
      isStepOutput source && string (fieldOf source "step") == some stepId).map fun source =>
        (selector source).2)

def Plan.step (plan : Plan) (stepId : String) : Option Step :=
  plan.steps.find? fun step => step.stepId == stepId

end

/-- The number of an array index token: `0`, or at most nine digits without a leading zero. -/
def indexToken (token : String) : Option Nat :=
  let digits := token.toList
  if !digits.isEmpty && digits.length ≤ 9 && digits.all isDigitAscii &&
      (token == "0" || digits.head? != some '0') then some (digitsValue digits).toNat
  else none

/-- The decoded tokens of a pointer within its bound; the empty pointer selects the whole value. -/
def pointerTokensOf (pointer : String) : Option (List String) :=
  if maxPointerChars < pointer.length || !pointerRe pointer then none
  else if pointer.isEmpty then some []
  else some (((pointer.toList.drop 1).splitOn '/').map unescape)

def follow (value : Value) (token : String) : Option Value :=
  match value with
  | .object found => (found.find? fun member => member.1 == token).map Prod.snd
  | .array items => (indexToken token).bind fun index => items[index]?
  | _ => none

def followAll : Value → List String → Option Value
  | value, [] => some value
  | value, token :: rest => (follow value token).bind fun next => followAll next rest

def select (value pointer : Value) : Except PlanError Value :=
  match (string pointer).bind pointerTokensOf with
  | none => .error .referenceInvalid
  | some tokens =>
    match followAll value tokens with
    | some found => .ok found
    | none => .error .referenceMissing

mutual

/-- Exact, type-sensitive JSON equality. -/
def same : Value → Value → Bool
  | .null, .null => true
  | .bool left, .bool right => left == right
  | .number left, .number right => pyEq (.number left) (.number right)
  | .string left, .string right => left == right
  | .array left, .array right => sameItems left right
  | .object left, .object right => left.length == right.length && sameMembers left right
  | _, _ => false

def sameItems : List Value → List Value → Bool
  | [], [] => true
  | left :: lefts, right :: rights => same left right && sameItems lefts rights
  | _, _ => false

def sameMembers : List (String × Value) → List (String × Value) → Bool
  | [], _ => true
  | (key, left) :: rest, right =>
    (match right.find? fun member => member.1 == key with
      | some (_, other) => same left other
      | none => false) && sameMembers rest right

end

def matchingItems (constant : String × Value) (items : List Value) : List Value :=
  items.filter fun entry => (entry.get constant.1).any fun member => same member constant.2

/-- The value `item` selects inside the one array item whose `where` member is the given constant. -/
def selectWhere (value pointer condition item : Value) : Except PlanError Value :=
  if ((string pointer).bind pointerTokensOf).isNone || ((string item).bind pointerTokensOf).isNone ||
      !whereShape condition then .error .referenceInvalid
  else do
    let array ← select value pointer
    match array, members condition with
    | .array items, constant :: _ =>
      match matchingItems constant items with
      | [] => .error .referenceMissing
      | [one] => select one item
      | _ => .error .referenceAmbiguous
    | _, _ => .error .referenceMissing

section

variable [Platform]

def selected (result : Value) (selector : Selector) : Except PlanError Value :=
  if selector.whereText.isEmpty then select result (text selector.pointer)
  else
    match parse selector.whereText with
    | .error _ => .error .referenceInvalid
    | .ok condition => selectWhere result (text selector.pointer) condition (text selector.item)

def selections (plan : Plan) (stepId : String) (result : Value) : Except PlanError (List (Selector × Value)) :=
  (plan.references stepId).mapM fun selector =>
    (selected result selector).map fun value => (selector, value)

/-- One retained selection as it is written. -/
def selectionEntry (entry : Key × Value) : Value :=
  .array [text entry.1.1, text entry.1.2.pointer, text entry.1.2.whereText, text entry.1.2.item, entry.2]

def retainedBytes (selected : List (Key × Value)) : Nat :=
  encodedBytes (.array (selected.map selectionEntry))

def resolvedValue (plan : Plan) (selected : List (Key × Value)) (startedAt : Int) (source : Value) :
    Except PlanError Value :=
  if string (fieldOf source "kind") == some "literal" then .ok (fieldOf source "value")
  else if string (fieldOf source "kind") == some "run_clock" then
    match zone (text plan.timezone) with
    | none => .error .timezoneInvalid
    | some zone =>
      match clockValue source startedAt zone with
      | some value => .ok value
      | none => .error .inputInvalid
  else
    match OrderedMap.get keyParts (selector source) selected with
    | some value => .ok value
    | none => .error .referenceMissing

/-- One step's complete input, validated against its Action's input schema before any dispatch. -/
def resolve (plan : Plan) (step : Step) (selected : List (Key × Value)) (startedAt : Int)
    (validate : Value → Bool) : Except PlanError Value := do
  let resolved ← step.inputs.mapM fun input =>
    (resolvedValue plan selected startedAt input.2).map fun value => (input.1, value)
  if maxResolvedInputBytes < encodedBytes (.object resolved) then .error .inputTooLarge
  else if !validate (.object resolved) then .error .inputType
  else .ok (.object resolved)

end

variable [Platform] [SchemaEngine]

/-- Whether some item passes a check that may refuse, in order. -/
def anyOk {α : Type} (check : α → Except PlanError Bool) : List α → Except PlanError Bool
  | [] => .ok false
  | item :: rest => do
      let found ← check item
      if found then .ok true else anyOk check rest

/-- Whether a literal reaches a secret destination anywhere inside it, within some levels of nesting;
no value stands for a member a run fills. -/
def secretLiteralAt (root : Value) : Nat → String → Option Value → Sub → Except PlanError Bool
  | _, _, none, _ => .ok false
  | 0, _, some _, _ => .ok true
  | levels + 1, name, some value, sub => do
      let candidates ← applicable root sub (.value value)
      if secretPosition root name candidates then .ok true
      else
        match value with
        | .object found =>
          anyOk (fun member => do
            let schemas ← memberSchemas candidates member.1
            secretLiteralAt root levels member.1 (some member.2) schemas) found
        | .array items =>
          anyOk (fun item => secretLiteralAt root levels name (some item.1)
            (itemSchemas candidates item.2)) items.zipIdx
        | _ => .ok false

/-- Whether a step's input, its run-filled members counting for presence only, reaches a secret
destination. -/
def stepSecretLiteral (schema : Value) (supplied : List (String × Option Value)) :
    Except PlanError Bool := do
  let candidates ← applicable schema (.node schema) (.supplied supplied)
  if secretPosition schema "" candidates then .ok true
  else
    anyOk (fun member => do
      let schemas ← memberSchemas candidates member.1
      secretLiteralAt schema maxSecretDepth member.1 member.2 schemas) supplied

/-- What a step input writes that its plan holds: a literal, or a template's text. -/
def suppliedValue (source : Value) : Except PlanError (Option Value) :=
  if string (fieldOf source "kind") == some "run_clock" && (source.get "parts").isSome then
    (sampleClock source).map some
  else .ok (source.get "value")

def memberSchema (schema : Value) (name : String) : Value :=
  let member := objectOf [("type", text "object"),
    ("properties", .object [(name, ((fieldOf schema "properties").get name).getD .null)]),
    ("required", .array [text name]), ("additionalProperties", .bool false)]
  ["$defs", "definitions"].foldl (fun member definitions =>
    match schema.get definitions with
    | some found => set member definitions found
    | none => member) member

/-- Validates one value against exactly its destination member, with the schema's own definitions. -/
def admitMember (schema : Value) (name : String) (value : Value) : Except PlanError Unit :=
  if SchemaEngine.validatePayload (memberSchema schema name) (.object [(name, value)]) then .ok ()
  else .error .inputType

/-- A literal or run-clock value must fit its destination; a reference is typed when it resolves. -/
def typed (name : String) (source schema : Value) : Except PlanError Unit :=
  if string (fieldOf source "kind") == some "literal" then
    admitMember schema name (fieldOf source "value")
  else if string (fieldOf source "kind") == some "run_clock" then do
    let sample ← sampleClock source
    admitMember schema name sample
  else .ok ()

/-- Whether a step holds only members its Action names, and every required one. -/
def inputsMatch (schema : Value) (inputs : List (String × Value)) : Bool :=
  (inputs.all fun input =>
    (members (fieldOf schema "properties")).any fun property => property.1 == input.1) &&
    (elements (fieldOf schema "required")).all fun member =>
      inputs.any fun input => string member == some input.1

/-- The contract of the Action a step names, under exactly the step's pin. -/
def pinned (contracts : Contracts) (raw : Value) : Except PlanError ActionContract :=
  match (contracts ((string (fieldOf raw "assistant")).getD "")
      ((string (fieldOf raw "action")).getD "")).filter
        fun contract => contract.pin == (string (fieldOf raw "pin")).getD "" with
  | some contract => .ok contract
  | none => .error .pinDrift

def admittedStep (raw : Value) (contracts : Contracts) (earlier : List String) :
    Except PlanError Step := do
  let stepId ← stepShape raw earlier
  let contract ← pinned contracts raw
  let schema := contract.inputSchema
  let inputs := members (fieldOf raw "input")
  if !contract.inputFiles.isEmpty then .error .fileInput
  else if !inputsMatch schema inputs then .error .inputMismatch
  else do
    let supplied ← inputs.mapM fun input => (suppliedValue input.2).map fun value => (input.1, value)
    let secret ← stepSecretLiteral schema supplied
    if secret then .error .secretLiteral
    else do
      inputs.forM fun input => typed input.1 input.2 schema
      .ok { stepId
            assistantId := (string (fieldOf raw "assistant")).getD ""
            action := (string (fieldOf raw "action")).getD ""
            pin := (string (fieldOf raw "pin")).getD ""
            inputs
            outputSchema := contract.outputSchema
            inputSchema := schema }

/-- Every step admitted in order, after some that already are. -/
def admittedSteps (contracts : Contracts) : List Step → List Value → Except PlanError (List Step)
  | steps, [] => .ok steps
  | steps, raw :: rest => do
      let step ← admittedStep raw contracts (steps.map Step.stepId)
      admittedSteps contracts (steps ++ [step]) rest

/-- `admit`: one plan at creation, against the exact current contracts of the Actions it names. -/
def admitPlan (document : Value) (contracts : Contracts) : Except PlanError Plan := do
  let parts ← documentParts document
  let steps ← admittedSteps contracts [] parts.1
  checkOutput parts.2 (steps.map Step.stepId)
  .ok { timezone := (string (fieldOf document "timezone")).getD ""
        steps
        digest := digest document
        output := parts.2 }

end ShimpzTeams.Routines
