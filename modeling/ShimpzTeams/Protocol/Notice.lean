import ShimpzTeams.Protocol.Json
import ShimpzTeams.Protocol.Value

/-!
# Canonical Routine wire forms

Schedules, names, zones, positions, and usages; the steps of a plan as a Supervisor
inspects them, and the compact summary of a revision; the closed detail and usage of
each notice. A canonical form is the value itself once its check passes, so each form
is stated as its check.
-/

namespace ShimpzTeams.Protocol

open StrictJson

def maxRoutines : Nat := 8

/-- The ordered Actions of a recorded plan. -/
def maxRoutineSteps : Int := 256

def minContinuousGapSeconds : Int := 5

def maxContinuousGapSeconds : Int := 366 * 86400

def daySeconds : Int := 86400

def maxRollupRuns : Int := 60

/-- Consecutive no-effect failed runs that pause a Routine. -/
def maxFailureStreak : Int := 3

def maxTurnDurationMs : Int := 86400000

/-- Every two neighbours of a list are related, as `windows(2).all` reads them. -/
def adjacent {α : Type} (related : α → α → Bool) : List α → Bool
  | first :: second :: rest => related first second && adjacent related (second :: rest)
  | _ => true

def admits (check : Value → Bool) (value : Value) : Option Value :=
  if check value then some value else none

def among (value : Value) (options : List String) : Bool :=
  (string value).any options.contains

def scheduleKinds : List String := ["continuous", "daily", "monthly", "weekly"]

def scheduleFields (kind : String) : List String :=
  if kind == "daily" then ["kind", "time"]
  else if kind == "weekly" then ["kind", "weekday", "time"]
  else if kind == "monthly" then ["kind", "day", "time"]
  else ["kind", "gap"]

def scheduleKind (value : Value) : Option String :=
  ((value.get "kind").bind string).filter scheduleKinds.contains

def scheduleMembers (kind : String) (members : List (String × Value)) : Bool :=
  if kind == "continuous" then
    whole (field members "gap") minContinuousGapSeconds maxContinuousGapSeconds
  else
    isFullValue timeRe (field members "time") &&
      (kind != "weekly" || whole (field members "weekday") 0 6) &&
      (kind != "monthly" || whole (field members "day") 1 28)

/-- `exact_schedule`: a schedule exactly in its canonical form. -/
def exactSchedule (value : Value) : Bool :=
  (scheduleKind value).any fun kind =>
    (exactObject value (scheduleFields kind)).any (scheduleMembers kind)

/-- `canonical_schedule`: daily, weekly, or monthly at a wall-clock time, or continuous with a gap. -/
def canonicalSchedule : Value → Option Value := admits exactSchedule

/-- `continuous_cap`: a continuous Routine's starts in any rolling 24 hours. -/
def continuousCap (gap : Int) : Int := (daySeconds - 1) / gap + 1

/-- `daily_cap` of a canonical schedule: a continuous one's cap, else one. -/
def dailyCap (schedule : Value) : Int :=
  match (schedule.get "gap").bind smallInt with
  | some gap =>
    if string (fieldOf schedule "kind") == some "continuous" then continuousCap gap else 1
  | none => 1

section

variable [Platform]

/-- A control, format, private, line-separator, or paragraph-separator character. -/
def isUnprintable (character : Char) : Bool :=
  let category := Platform.category character
  category.toList.head? == some 'C' || category == "Zl" || category == "Zp"

/-- One trimmed line of 1 to `maximum` characters in normal form. -/
def isLine (text : String) (maximum : Nat) : Bool :=
  1 ≤ text.length && text.length ≤ maximum && Platform.isNfc text && strip text == text &&
    !text.toList.any isUnprintable

def line (value : Value) (maximum : Nat) : Option String :=
  (string value).filter fun text => isLine text maximum

/-- `canonical_name`: a Routine's short name, 1 to 80 characters. -/
def canonicalName (value : Value) : Option String := line value 80

/-- `canonical_description`: a Routine card's description, 1 to 600 characters. -/
def canonicalDescription (value : Value) : Option String := line value 600

def exactName (value : Value) : Bool := (canonicalName value).isSome

def exactDescription (value : Value) : Bool := (canonicalDescription value).isSome

end

/-- `canonical_timezone`: a zone name by its grammar. -/
def canonicalTimezone (value : Value) : Option String := (string value).filter timezoneRe

def timezoneSources : List String := ["browser", "person", "none"]

/-- The zone a Routine without a known zone runs on by convention. -/
def conventionalTimezone : String := "UTC"

/-- `zoned`: a known source names a zone, and none means UTC. -/
def zoned (timezone source : Value) : Bool :=
  ((string source).filter timezoneSources.contains).any fun source =>
    (canonicalTimezone timezone).any fun zone => source != "none" || zone == conventionalTimezone

def validAssistant (value : Value) : Bool := (canonicalAssistantId value).isSome

def validAction (value : Value) : Bool := (canonicalActionId value).isSome

/-- A step's 1-based position among at most `maximum` steps. -/
def position (value : Value) (maximum : Int) : Bool := whole value 1 maximum

/-- A call's position among a plan's `steps`. -/
def exactPosition (value steps : Value) : Bool :=
  (smallInt steps).any fun steps =>
    0 ≤ steps && steps ≤ maxRoutineSteps && position value steps

/-- `valid_revision`: an integer from 1 below 2^31. -/
def validRevision (value : Value) : Bool := whole value 1 (2 ^ 31 - 1)

def modelBefore (left right : String × String) : Bool :=
  left.1 < right.1 || (left.1 == right.1 && left.2 < right.2)

def maxStepInputs : Nat := 64

def maxStepStoredInputs : Nat := 8

def maxMemberChars : Nat := 128

def maxPointerChars : Nat := 256

/-- The longest selector constant as JSON text. -/
def maxWhereChars : Nat := 4096

def maxPreviewChars : Nat := 120

/-- One projected step's encoded size at most. -/
def maxStepViewBytes : Nat := 24 * 1024

/-- The most runs of consecutive equal Actions a summary lists. -/
def maxSummaryRuns : Nat := 16

def charOf (point : Nat) : Option Char :=
  if h : point.isValidChar then some (Char.ofNatAux point h) else none

def pushEscaped (point : Nat) (character : Option Char) : List Char :=
  match character with
  | some character => if planUnsafe point then pushEscape point else [character]
  | none => pushEscape point

/-- `escaped`: every control or invisible character written as its JSON unicode escape. -/
def escaped (text : String) : String :=
  String.ofList (text.toList.flatMap fun character => pushEscaped character.toNat (some character))

/-- `preview`: escaped text cut to 120 characters. -/
def preview (text : String) : String :=
  let shown := escaped text
  if shown.length ≤ maxPreviewChars then shown
  else String.ofList (shown.toList.take (maxPreviewChars - 1) ++ ['…'])

/-- `literal_preview`: a literal's JSON text, escaped and cut. -/
def literalPreview [Platform] (value : Value) : String := preview (canonical value)

/-- The JSON text of a decoded string given by its code points. -/
def whereString (points : List Nat) : String :=
  let quoted := points.flatMap fun point =>
    match charOf point with
    | some character =>
      if point ≤ 0x1F || character == '"' || character == '\\' then writeChar false character
      else pushEscaped point (some character)
    | none => pushEscaped point none
  String.ofList ('"' :: quoted ++ ['"'])

/-- `where_text`: a selector constant as its JSON text, `none` unless a string or an integer. -/
def whereText [Platform] (constant : Value) : Option String :=
  match constant with
  | .string text => some (whereString (text.toList.map Char.toNat))
  | .number (.int _) => some (canonical constant)
  | .number (.bigInt _) => some (canonical constant)
  | _ => none

/-- A JSON pointer within its bound that shows as it is written. -/
def pointer (value : Value) : Bool :=
  (string value).any fun text =>
    text.length ≤ maxPointerChars && pointerRe text && !text.toList.any fun character => planUnsafe character.toNat

def hexValue (character : Char) : Option Nat :=
  if '0' ≤ character && character ≤ '9' then some (character.toNat - 48)
  else if 'a' ≤ character && character ≤ 'f' then some (character.toNat - 87)
  else if 'A' ≤ character && character ≤ 'F' then some (character.toNat - 55)
  else none

/-- Four hexadecimal digits and the text after them. -/
def hex4 : List Char → Option (Nat × List Char)
  | a :: b :: c :: d :: rest => do
      let a ← hexValue a
      let b ← hexValue b
      let c ← hexValue c
      let d ← hexValue d
      some (((a * 16 + b) * 16 + c) * 16 + d, rest)
  | _ => none

/-- A JSON scalar read from a selector's text. -/
inductive Scalar where
  | string (points : List Nat)
  | integer

/-- The point of a one-letter escape that a writer also writes. -/
def simpleEscape (escape : Char) : Option Nat :=
  if escape == '"' then some 0x22
  else if escape == '\\' then some 0x5C
  else if escape == 'b' then some 0x08
  else if escape == 'f' then some 0x0C
  else if escape == 'n' then some 0x0A
  else if escape == 'r' then some 0x0D
  else if escape == 't' then some 0x09
  else none

/-- Whether a high surrogate's text goes on with a low surrogate's escape, `none` for a broken one. -/
def surrogatePair (high : Nat) (rest : List Char) : Option Bool :=
  match rest with
  | '\\' :: 'u' :: digits =>
    if 0xD800 ≤ high && high ≤ 0xDBFF then
      (hex4 digits).map fun low => decide (0xDC00 ≤ low.1 ∧ low.1 ≤ 0xDFFF)
    else some false
  | _ => some false

def jsonEscape : List Char → Option (Nat × List Char)
  | [] => none
  | escape :: rest =>
    if escape == 'u' then
      (hex4 rest).bind fun (high, after) =>
        match surrogatePair high after with
        | some false => some (high, after)
        | _ => none
    else (simpleEscape escape).map fun point => (point, rest)

/-- The points of a quoted text after its opening quote; each round reads at least one character. -/
def scalarPoints : Nat → List Char → Option (List Nat)
  | 0, _ => none
  | _ + 1, [] => none
  | fuel + 1, character :: rest =>
    if character == '"' then if rest.isEmpty then some [] else none
    else if character == '\\' then
      (jsonEscape rest).bind fun (point, after) => (scalarPoints fuel after).map (point :: ·)
    else (scalarPoints fuel rest).map (character.toNat :: ·)

/-- What a selector's text reads as: a string, or an integer written exactly so. -/
def jsonScalar (text : String) : Option Scalar :=
  let digits := unsigned text.toList
  if !digits.isEmpty && digits.all isDigitAscii then
    if digits == ['0'] || digits.head? != some '0' then some .integer else none
  else
    match text.toList with
    | '"' :: rest => (scalarPoints (rest.length + 1) rest).map .string
    | _ => none

def selector (value : Value) : Bool :=
  (exactObject value ["member", "value_json"]).any fun members =>
    plain (field members "member") maxMemberChars &&
      plain (field members "value_json") maxWhereChars &&
      let text := (string (field members "value_json")).getD ""
      match jsonScalar text with
      | some (.string points) => whereString points == text
      | some .integer => text != "-0"
      | none => false

/-- `reference`: an earlier position and its pointer, and through an array item its selector. -/
def reference (members : List (String × Value)) (place : Int) : Bool :=
  position (field members "step") (place - 1) && pointer (field members "pointer") &&
    if isNull (field members "where") then isNull (field members "item")
    else selector (field members "where") && pointer (field members "item")

def inputFields (source : Option String) : Option (List String) :=
  if source == some "literal" || source == some "run_clock" then some ["member", "source", "value"]
  else if source == some "step_output" then
    some ["member", "source", "step", "pointer", "where", "item"]
  else none

/-- One projected input of the step at `place`. -/
def input (value : Value) (place : Int) : Bool :=
  let source := (value.get "source").bind string
  (inputFields source).any fun fields =>
    (exactObject value fields).any fun members =>
      plain (field members "member") maxMemberChars &&
        if source == some "step_output" then reference members place
        else plain (field members "value") maxPreviewChars

/-- The order of two optional texts, a missing one first. -/
def textBefore : Option String → Option String → Bool
  | none, some _ => true
  | some left, some right => left < right
  | _, none => false

/-- `members`: a step's inputs, each admitted, in member order with no member twice. -/
def inputMembers (items : Value) (admits : Value → Bool) : Bool :=
  (array items).any fun items =>
    items.length ≤ maxStepInputs && items.all admits &&
      adjacent (fun left right =>
        textBefore (string (fieldOf left "member")) (string (fieldOf right "member"))) items

/-- Identifiers, each admitted, in strictly ascending order. -/
def storedNames (stored : Value) : Bool :=
  (array stored).any fun stored =>
    stored.length ≤ maxStepStoredInputs &&
      (stored.mapM canonicalIdentifier).any (adjacent fun left right => left < right)

/-- `canonical_step`: one projected step at exactly `place`, within its byte bound. -/
def exactStep [Platform] (value : Value) (place : Int) : Bool :=
  (exactObject value ["position", "assistant", "action", "read_only", "inputs",
      "stored_inputs"]).any fun members =>
    1 ≤ place && place ≤ maxRoutineSteps && smallInt (field members "position") == some place &&
      validAssistant (field members "assistant") && validAction (field members "action") &&
      isBool (field members "read_only") &&
      inputMembers (field members "inputs") (fun item => input item place) &&
      storedNames (field members "stored_inputs") && encodedBytes value ≤ maxStepViewBytes

def summaryRun (run : Value) : Option (Value × Value × Int) :=
  match array run with
  | some [assistant, action, count] =>
    if validAssistant assistant && validAction action && position count maxRoutineSteps then
      (smallInt count).map fun count => (assistant, action, count)
    else none
  | _ => none

/-- `canonical_summary`: a summary whose runs cover the first steps in order. -/
def exactSummary (value : Value) : Bool :=
  (exactObject value ["revision", "plan_digest", "steps", "actions", "more"]).any fun members =>
    (array (field members "actions")).any fun runs =>
      validRevision (field members "revision") &&
        isFullValue planDigestRe (field members "plan_digest") &&
        whole (field members "steps") 1 maxRoutineSteps &&
        1 ≤ runs.length && runs.length ≤ maxSummaryRuns &&
        (runs.mapM summaryRun).any fun parsed =>
          adjacent (fun left right => !(pyEq left.1 right.1 && pyEq left.2.1 right.2.1)) parsed &&
            (smallInt (field members "more")).any fun more =>
              0 ≤ more && (more == 0 || runs.length == maxSummaryRuns) &&
                smallInt (field members "steps") ==
                  some ((parsed.map fun run => run.2.2).sum + more)

/-- What a frozen run waits for. -/
def requestKinds : List String := ["human", "integrations"]

def maxUnresolvedIncidents : Nat := 32

def maxCreationSteps : Nat := 64

def outcomes : List String :=
  ["changed", "created", "deleted", "denied", "done", "failed", "frozen", "healthy", "held",
    "paused", "recovered", "scope-changed", "skipped", "stopped", "streak-paused", "user-skipped"]

/-- Why a held run's Routine was paused. -/
def pauseReasons : List String := ["exhausted", "policy", "evidence"]

def outputModes : List String := ["show", "changes", "none"]

def shownModes : List String := ["changes", "show"]

def outputStates : List String := ["shown", "unchanged", "unavailable"]

/-- Containers of an output nest at most this deep. -/
def maxOutputDepth : Nat := 4

/-- A whole number of items left out. -/
def count (value : Option Value) : Bool := value.any fun value => whole value 0 (2 ^ 31 - 1)

/-- Text within a bound without a control or invisible character. -/
def plainText (value : Option Value) (maximum : Nat) : Bool :=
  (value.bind string).any fun text =>
    text.length ≤ maximum && !text.toList.any fun character => planUnsafe character.toNat

def scalarNode (members : List (String × Value)) (kind : Option String) : Bool :=
  let item := (members.find? fun member => member.1 == "value").map Prod.snd
  if kind == some "null" || kind == some "redacted" || kind == some "elided" then
    hasExactly members ["kind"]
  else if kind == some "bool" then hasExactly members ["kind", "value"] && item.any isBool
  else if kind == some "number" then
    hasExactly members ["kind", "value"] &&
      (item.bind string).any fun number => number.length ≤ 64 && outputNumberRe number
  else if kind == some "text" then
    hasExactly members ["kind", "value", "cut"] && isBool (field members "cut") && plainText item 300
  else false

/-- The name an entry of a fields node starts with. -/
def keyOf (entry : Value) : Option Value := (array entry).bind List.head?

/-- A container node whose children pass `inner`. -/
def containerNode (inner : Value → Bool) (value : Value) (members : List (String × Value))
    (kind : Option String) : Bool :=
  count (value.get "omitted") &&
    if kind == some "list" then
      hasExactly members ["kind", "items", "omitted"] &&
        (array (field members "items")).any fun items => items.length ≤ 50 && items.all inner
    else
      hasExactly members ["kind", "fields", "omitted"] &&
        (array (field members "fields")).any fun fields =>
          fields.length ≤ 24 &&
            (fields.all fun entry =>
              match array entry with
              | some [key, node] => plain key 64 && inner node
              | _ => false) &&
            fields.zipIdx.all fun entry =>
              !(fields.take entry.2).any fun other => keyOf other == keyOf entry.1

/-- A node with `levels` container levels left below it. -/
def outputNode : Nat → Value → Bool
  | levels, value =>
    (object value).any fun members =>
      let kind := (value.get "kind").bind string
      if kind == some "list" || kind == some "fields" then
        match levels with
        | 0 => false
        | levels + 1 => containerNode (outputNode levels) value members kind
      else scalarNode members kind

section

variable [Platform]

/-- `canonical_output`: a completed run's result as shown. -/
def exactOutput (value : Value) : Bool :=
  (exactObject value ["step", "state", "value", "truncated"]).any fun members =>
    let state := (string (field members "state")).filter outputStates.contains
    position (field members "step") maxRoutineSteps && isBool (field members "truncated") &&
      (match state with
        | some state =>
          if state == "shown" then outputNode maxOutputDepth (field members "value")
          else isNull (field members "value") && field members "truncated" == .bool false
        | none => false) &&
      encodedBytes value ≤ 16 * 1024

def completedDetail (detail : List (String × Value)) : Bool :=
  exactSummary (field detail "plan") &&
    (isNull (field detail "output") ||
      (exactOutput (field detail "output") &&
        pyEq (fieldOf (field detail "output") "step") (fieldOf (field detail "plan") "steps")))

end

def progressInteger (value : Value) (minimum maximum : Int) : Option Value :=
  if whole value minimum maximum then some value else none

def pushAction (members : List (String × Value)) : Option (List (String × Value)) := do
  let total ← progressInteger (field members "total") 1 512
  let assistant ← canonicalAssistantId (field members "assistant_id")
  let index ← progressInteger (field members "index") 1 ((smallInt total).getD 1)
  let action ← canonicalActionId (field members "action")
  some [("assistant_id", .string assistant), ("index", index), ("action", .string action), ("total", total)]

def phases : List String :=
  ["action", "action-delivery", "action-preparation", "browser", "model", "team-context"]

/-- `canonical_event`: one metadata-only progress occurrence. -/
def canonicalEvent (value : Value) : Option Value := do
  let members ← object value
  let phase ← (string (field members "phase")).filter phases.contains
  let state ← (string (field members "state")).filter ["finished", "started"].contains
  let finished := state == "finished"
  let action := phase == "action"
  let expected := ["seq", "phase", "state"] ++ (if finished then ["elapsed_ms"] else []) ++
    (if action then ["assistant_id", "index", "action", "total"] else [])
  if !hasExactly members expected then none
  else do
    let seq ← progressInteger (field members "seq") 1 2048
    let elapsed ← if finished then
        (progressInteger (field members "elapsed_ms") 0 86400000).map fun elapsed =>
          [("elapsed_ms", elapsed)]
      else some []
    let called ← if action then pushAction members else some []
    some (.object ([("seq", seq), ("phase", .string phase), ("state", .string state)] ++ elapsed ++ called))

def creation (detail : List (String × Value)) : Bool :=
  (array (field detail "steps")).any fun steps =>
    steps.length ≤ maxCreationSteps &&
      steps.zipIdx.all fun step =>
        (canonicalEvent step.1).any fun event =>
          string (fieldOf event "state") == some "finished" && pyEq (fieldOf event "seq") (int (step.2 + 1))

section

variable [Platform]

def detailFields (outcome : String) : List String :=
  if outcome == "done" || outcome == "recovered" then ["plan", "output"]
  else if outcome == "paused" then ["reason"]
  else if outcome == "skipped" then ["missed"]
  else if outcome == "healthy" then ["runs"]
  else if outcome == "frozen" then ["request_kind"]
  else if outcome == "failed" then ["code"]
  else if outcome == "created" then ["steps"]
  else if outcome == "streak-paused" then ["failures"]
  else []

def detailCheck (outcome : String) (detail : List (String × Value)) : Bool :=
  if outcome == "done" || outcome == "recovered" then completedDetail detail
  else if outcome == "paused" then among (field detail "reason") pauseReasons
  else if outcome == "skipped" then positive (field detail "missed")
  else if outcome == "healthy" then whole (field detail "runs") 1 maxRollupRuns
  else if outcome == "frozen" then among (field detail "request_kind") requestKinds
  else if outcome == "failed" then isFullValue errorCodeRe (field detail "code")
  else if outcome == "created" then creation detail
  else if outcome == "streak-paused" then whole (field detail "failures") 1 maxFailureStreak
  else true

def exactDetail (outcome : String) (detail : Value) : Bool :=
  outcomes.contains outcome && (exactObject detail (detailFields outcome)).any (detailCheck outcome)

/-- `canonical_notice_detail`: the exact closed detail for a run outcome. -/
def canonicalNoticeDetail (outcome detail : Value) : Option Value :=
  (string outcome).bind fun outcome => if exactDetail outcome detail then some detail else none

end

def isLeap (year : Int) : Bool := year % 4 == 0 && (year % 100 != 0 || year % 400 == 0)

def daysInMonth (year month : Int) : Int :=
  if month == 2 then if isLeap year then 29 else 28
  else if month == 4 || month == 6 || month == 9 || month == 11 then 30
  else 31

/-- The number some decimal digits write. -/
def digitsValue (digits : List Char) : Int :=
  digits.foldl (fun value digit => value * 10 + (digit.toNat - 48 : Int)) 0

end ShimpzTeams.Protocol
