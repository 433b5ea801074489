import ShimpzTeams.Routines.Dates
import ShimpzTeams.Library.Keyed

/-!
# When a Routine fires, its plan, and the transitions that admit a definition

The next occurrence of a canonical schedule strictly after an instant, in whole UTC
epoch seconds. The closed shape a kept plan document has. Then the records of one
Team's Routine state, a definition's share of its Team's bytes and daily steps, and
the Team's undelivered notices. Creation, update, and refinement each admit one
revision of a definition within its contract and budgets, with its own notice in the
same write.
-/

namespace ShimpzTeams.Routines

open StrictJson Protocol

/-- The text with U+0130 and U+0131 written as `i`. -/
def foldDottedI (text : String) : String :=
  String.ofList (text.toList.map fun character =>
    if character.toNat == 0x130 || character.toNat == 0x131 then 'i' else character)

/-- The engine's case folding onto the letters the pattern names. -/
def foldCase (character : Char) : Char :=
  if isUpperAscii character then Char.ofNat (character.toNat + 32)
  else if character.toNat == 0x212A then 'k'
  else if character.toNat == 0x17F then 's'
  else character

def afterText (word : String) (text : List Char) : Option (List Char) :=
  if text.take word.length == word.toList then some (text.drop word.length) else none

theorem isSome_afterText {word text} : (afterText word text).isSome = true ↔ word.toList <+: text := by
  rw [afterText, List.prefix_iff_eq_take, String.length_toList]
  split
  next hword => exact iff_of_true rfl (beq_iff_eq.mp hword).symm
  next hother => exact iff_of_false Bool.false_ne_true fun hword => hother (beq_iff_eq.mpr hword.symm)

def afterJoin : List Char → List (List Char)
  | '_' :: rest => ['_' :: rest, rest]
  | '-' :: rest => ['-' :: rest, rest]
  | text => [text]

/-- At least `least` characters of a class. -/
def starts (least : Nat) (letters : Char → Bool) (text : List Char) : Bool :=
  least ≤ (text.takeWhile letters).length

def bearer (text : List Char) : Bool :=
  (afterText "bearer" text).any fun rest =>
    starts 1 isspace rest &&
      starts 12 (fun character => isLowerAlnum character || ['.', '_', '~', '-'].contains character)
        (rest.dropWhile isspace)

/-- What follows a secret's name: an assignment of something. -/
def assigned (text : List Char) : Bool :=
  match text.dropWhile isspace with
  | mark :: rest => (mark == ':' || mark == '=') && !(rest.dropWhile isspace).isEmpty
  | [] => false

def joinedWords : List (String × String) :=
  [("api", "key"), ("access", "token"), ("client", "secret")]

def assignedSecret (text : List Char) : Bool :=
  (joinedWords.any fun words =>
    (afterText words.1 text).any fun rest =>
      (afterJoin rest).any fun rest => (afterText words.2 rest).any assigned) ||
    (afterText "password" text).any assigned

def providerMarks : List String :=
  ["sk", "ghp", "github_pat", "glpat", "xoxb", "xoxa", "xoxp", "xoxr", "xoxs"]

def providerKey (text : List Char) : Bool :=
  providerMarks.any fun mark =>
    (afterText mark text).any fun rest =>
      match rest with
      | join :: rest =>
        (join == '-' || join == '_') &&
          starts 12 (fun character => isLowerAlnum character || character == '_' || character == '-') rest
      | [] => false

/-- Credential material somewhere in a folded text. -/
def secretValue : List Char → Bool
  | [] => false
  | character :: rest =>
    let text := character :: rest
    bearer text || assignedSecret text || providerKey text || secretValue rest

def jwtPart (part : List Char) : Bool :=
  8 ≤ part.length && part.all fun character => isAlnum character || character == '_' || character == '-'

def jwt (text : List Char) : Bool :=
  match text.splitOn '.' with
  | [first, second, third] =>
    first.take 3 == ['e', 'y', 'J'] && jwtPart (first.drop 3) && jwtPart second && jwtPart third
  | _ => false

/-- Whether text looks like credential material. -/
def resemblesCredential [Platform] (value : String) : Bool :=
  (Platform.searchStops (foldDottedI value) ||
      secretValue ((foldDottedI value).toList.map foldCase)) ||
    (Platform.searchStops (strip value) || jwt (strip value).toList)

mutual

def holdsCredential [Platform] : Value → Bool
  | .string text => resemblesCredential text
  | .array items => itemsHoldCredential items
  | .object members => membersHoldCredential members
  | _ => false

def itemsHoldCredential [Platform] : List Value → Bool
  | [] => false
  | item :: rest => holdsCredential item || itemsHoldCredential rest

def membersHoldCredential [Platform] : List (String × Value) → Bool
  | [] => false
  | (key, item) :: rest =>
    (resemblesCredential key || holdsCredential item) || membersHoldCredential rest

end

section

variable [Platform]

def zone (name : Value) : Option Platform.Zone := (canonicalTimezone name).bind Platform.zoneGet

def clockNumber (digits : List Char) : Option Nat :=
  if digits.isEmpty || !digits.all isDigitAscii then none else some (digitsValue digits).toNat

def wallClock (day : Date) (time : String) (zone : Platform.Zone) : Option Int :=
  let hour := time.toList.takeWhile fun character => character != ':'
  match time.toList.dropWhile fun character => character != ':' with
  | [] => none
  | _ :: minute =>
    (clockNumber hour).bind fun hour =>
      (clockNumber minute).bind fun minute =>
        Platform.instantOf zone (day.year, day.month, day.day) hour minute

def firesOn (schedule : Value) (day : Date) : Bool :=
  let kind := string (fieldOf schedule "kind")
  if kind == some "weekly" then fieldOf schedule "weekday" == int day.weekday
  else if kind == some "monthly" then fieldOf schedule "day" == int day.day
  else true

/-- The first firing after an instant from a date on, within `days` dates. -/
def firstFiring (schedule : Value) (time : String) (zone : Platform.Zone) (after : Int) :
    Nat → Date → Option Int
  | 0, _ => none
  | days + 1, day =>
    let later := (day.addDays 1).bind (firstFiring schedule time zone after days)
    if firesOn schedule day then
      (wallClock day time zone).bind fun candidate =>
        if after < candidate then some candidate else later
    else later

/-- The dates of the calendar, which the search for a firing runs out of at the latest. -/
def calendarDays : Nat := 3652059

/-- The first firing strictly after `after` and the Routine's `anchor`, `none` outside the
contract or beyond the calendar. -/
def nextRun (schedule timezone : Value) (anchor after : Int) : Option Int :=
  (canonicalSchedule schedule).bind fun canonical =>
    (zone timezone).bind fun zone =>
      let after := max after anchor
      match (canonical.get "gap").bind smallInt with
      | some gap => if after + gap < 2 ^ 63 then some (after + gap) else none
      | none =>
        (string (fieldOf canonical "time")).bind fun time =>
          ((Date.ofInstant after zone).bind fun day => day.addDays (-1)).bind
            (firstFiring canonical time zone after calendarDays)

end

def version : Int := 4

def maxSteps : Nat := 256

/-- The canonical plan document of one revision. -/
def maxPlanBytes : Nat := 256 * 1024

/-- One Routine's canonical plan and grant together. -/
def maxDefinitionBytes : Nat := 512 * 1024

def teamDefinitionBytes : Nat := 1024 * 1024

/-- The business steps a Team's runs may start in any rolling 24 hours. -/
def maxDailySteps : Int := 20000

/-- A claimed run must start its segment within this window. -/
def startLeaseSeconds : Int := 900

/-- What a running segment's lease outlasts its active time by. -/
def leaseMarginSeconds : Int := 300

def shortActiveSeconds : Int := 600

/-- The most active time any run may spend. -/
def maxActiveSeconds : Int := 7200

/-- The instant a template's text is checked at when a plan is admitted. -/
def sampleInstant : Int := 1767225600

/-- The active time one run of a revision with `steps` steps may spend. -/
def activeSeconds (steps : Int) : Int := min (360 + 30 * steps) maxActiveSeconds

def longRun (steps : Int) : Bool := shortActiveSeconds < activeSeconds steps

inductive PlanError where
  | invalid
  | timezoneInvalid
  | outputInvalid
  | stepInvalid
  | inputInvalid
  | secretLiteral
  | referenceInvalid
  | pinDrift
  | fileInput
  | inputMismatch
  | inputType
  | referenceMissing
  | referenceAmbiguous
  | inputTooLarge
  deriving DecidableEq

def whereShape (value : Value) : Bool :=
  (object value).any fun found =>
    found.length == 1 && found.all fun member => isString member.2 || isInteger member.2

/-- Whether a value is one RFC 6901 pointer within its bound. -/
def isPointer (pointer : Value) : Bool :=
  (string pointer).any fun text => text.length ≤ maxPointerChars && pointerRe text

def checkOutput (value : Value) (ids : List String) : Except PlanError Unit :=
  if !hasFields value ["mode", "step"] then .error .outputInvalid
  else
    match (string (fieldOf value "mode")).filter outputModes.contains, ids.getLast? with
    | some mode, some last =>
      if (if shownModes.contains mode then string (fieldOf value "step") == some last
        else isNull (fieldOf value "step")) then .ok () else .error .outputInvalid
    | _, _ => .error .outputInvalid

def sourceFields : List (String × List String) :=
  [("literal", ["kind", "value"]), ("run_clock", ["kind", "format"]),
    ("run_clock", ["kind", "format", "parts"]), ("step_output", ["kind", "step", "pointer"]),
    ("step_output", ["kind", "step", "pointer", "where", "item"])]

def sourceKind (source : Value) : Option String :=
  (string (fieldOf source "kind")).filter fun kind =>
    sourceFields.any fun entry => kind == entry.1 && hasFields source entry.2

def checkReference (source : Value) (earlier : List String) : Bool :=
  (earlier.any fun known => string (fieldOf source "step") == some known) &&
    isPointer (fieldOf source "pointer") &&
    ((source.get "where").isNone || (whereShape (fieldOf source "where") && isPointer (fieldOf source "item")))

section

variable [Platform]

def sampleClock (source : Value) : Except PlanError Value :=
  match clockValue source sampleInstant Platform.utc with
  | some value => .ok value
  | none => .error .inputInvalid

def checkSource (source : Value) (earlier : List String) : Except PlanError Unit :=
  match sourceKind source with
  | none => .error .inputInvalid
  | some kind =>
    if kind == "literal" && holdsCredential (fieldOf source "value") then .error .secretLiteral
    else if kind == "run_clock" && !admittedClock source then .error .inputInvalid
    else if kind == "run_clock" && (source.get "parts").isSome then do
      let sample ← sampleClock source
      if holdsCredential sample then .error .secretLiteral else .ok ()
    else if kind == "step_output" && !checkReference source earlier then .error .referenceInvalid
    else .ok ()

/-- The identity of a step in its closed shape, before its sources are read. -/
def stepIdentity (raw : Value) (earlier : List String) : Bool :=
  hasFields raw ["id", "assistant", "action", "pin", "input"] &&
    isFullValue routineStepIdRe (fieldOf raw "id") &&
    !(earlier.any fun known => string (fieldOf raw "id") == some known) &&
    (canonicalAssistantId (fieldOf raw "assistant")).isSome &&
    (canonicalActionId (fieldOf raw "action")).isSome &&
    isFullValue planDigestRe (fieldOf raw "pin") && isObject (fieldOf raw "input")

/-- The sources of a step, each in its closed shape. -/
def checkSources (earlier : List String) : List (String × Value) → Except PlanError Unit
  | [] => .ok ()
  | (_, source) :: rest => do
      checkSource source earlier
      checkSources earlier rest

def stepShape (raw : Value) (earlier : List String) : Except PlanError String :=
  if !stepIdentity raw earlier then .error .stepInvalid
  else do
    checkSources earlier (members (fieldOf raw "input"))
    .ok ((string (fieldOf raw "id")).getD "")

/-- A plan's raw steps and raw output, within its closed top-level shape and bounds. -/
def documentParts (document : Value) : Except PlanError (List Value × Value) :=
  if !hasFields document ["version", "timezone", "steps", "output"] then .error .invalid
  else if fieldOf document "version" != int version || maxPlanBytes < encodedBytes document then
    .error .invalid
  else if (zone (fieldOf document "timezone")).isNone then .error .timezoneInvalid
  else
    match array (fieldOf document "steps") with
    | none => .error .invalid
    | some steps =>
      if maxSteps < steps.length then .error .invalid else .ok (steps, fieldOf document "output")

def stepIds : List String → List Value → Except PlanError (List String)
  | ids, [] => .ok ids
  | ids, raw :: rest => do
      let id ← stepShape raw ids
      stepIds (ids ++ [id]) rest

def checkPlan (document : Value) : Except PlanError Unit := do
  let (steps, output) ← documentParts document
  let ids ← stepIds [] steps
  checkOutput output ids

/-- `well_formed`: whether a kept plan still has the closed shape and bounds of an admitted one. -/
def wellFormed (document : Value) : Bool := (checkPlan document).isOk

/-- The `sha256:` digest of a document's canonical bytes. -/
def digest (document : Value) : String := "sha256:" ++ sha256Hex (canonical document)

end

def outputState (step : Value) (state : String) : Value :=
  objectOf [("step", step), ("state", text state), ("value", .null), ("truncated", .bool false)]

open Library

def maxFrozenRuns : Nat := 8

/-- The undelivered notices that stop claims and new skip reports. -/
def maxUndeliveredNotices : Nat := 32

/-- Undelivered Routine outcomes beside every run's. -/
def maxRoutineNotices : Nat := 3 * maxRoutines

/-- Ended runs whose generation, continuation, and cursor Team has yet to remove. -/
def maxDiscards : Nat := 3 * maxRoutines

def maxRuns : Nat := 2 * maxUnresolvedIncidents

/-- How late a run may still start at most. -/
def maxGraceSeconds : Int := 12 * 3600

/-- Bounds the work of counting firings missed during a long outage. -/
def maxCountedMisses : Nat := 24 * 400

/-- The lease key of a run leased for a person's answer. -/
def humanLease : String := "human"

/-- From a frozen run only these outcomes are possible. -/
def frozenOutcomes : List String := ["denied", "stopped", "failed"]

/-- Why a requested transition is not allowed in the current state. -/
inductive RoutineStateError where
  | entropyUnavailable
  | freezeInvalid
  | frozenLimit
  | generationInvalid
  | incidentChanged
  | incidentNotFound
  | incidentNotSkipped
  | incidentNotUnresolved
  | invalidDuration
  | invalidOutcome
  | leaseInvalid
  | noticeInvalid
  | noticesFull
  | routineBusy
  | routineDeleting
  | routineExists
  | routineInvalid
  | routineKeyInvalid
  | routineLimit
  | routineNotFound
  | routineNotResumable
  | routineRevisionChanged
  | routineStepBudget
  | routineTeamBudget
  | routineTooLarge
  | runChanged
  | runNotFound
  | runNotFrozen
  | runNotHeld
  | runNotRunning
  | runTimeExhausted
  deriving DecidableEq, Repr

abbrev Transition (α : Type) := Except RoutineStateError α

structure Routine where
  routineId : String
  name : String
  schedule : Value
  assistants : List (String × String)
  plan : Value
  anchor : Int
  nextRunAt : Int
  description : String := ""
  needsReconfirm : Bool := false
  deleting : Bool := false
  gapStartedAt : Int := 0
  missed : Int := 0
  reportedMissed : Int := 0
  revision : Int := 1
  timezoneSource : String := "browser"
  paused : Bool := false
  confirmation : Option Value := none
  permitted : List Value := []
  failures : Int := 0
  rollupMinute : Int := 0
  rollupRuns : Int := 0
  rollupUsage : Option Value := none
  runRequested : Int := 0
  outputDigest : String := ""

/-- The zone the Routine fires and dates its runs in. -/
def Routine.timezone (routine : Routine) : String :=
  (string (fieldOf routine.plan "timezone")).getD ""

inductive RunStatus where
  | leased
  | frozen
  | held
  | unresolved
  | skipped
  deriving DecidableEq, Repr

namespace RunStatus

/-- A live run: it may run a segment, waits for a person, or is fenced while its hold settles. -/
def live : RunStatus → Bool
  | .leased => true
  | .frozen => true
  | .held => true
  | .unresolved => false
  | .skipped => false

end RunStatus

structure Run where
  runId : String
  routineId : String
  status : RunStatus
  leaseSha256 : String := ""
  leaseKey : String := ""
  leaseExpiresAt : Int := 0
  activeSecondsLeft : Int := shortActiveSeconds
  requestKind : String := ""
  assistantId : String := ""
  action : String := ""
  generation : String := ""
  noticeVersion : Int := 0
  requestsUsed : Int := 0
  position : Option Int := none
  steps : Int := 0
  usage : Value := objectOf [("duration_ms", int 0)]
  protectionLost : Bool := false
  revision : Int := 1

structure Notice where
  noticeId : String
  routineId : String
  runId : String
  outcome : String
  createdAt : Int
  detail : Value
  version : Int := 1
  name : String := ""
  usage : Option Value := none
  protectionLost : Bool := false

/-- One start: its Routine, its instant, and the steps it reserved. -/
abbrev Start := String × Int × Int

structure TeamRoutines where
  routines : List Routine := []
  runs : List Run := []
  notices : List Notice := []
  servedAt : Int := 0
  starts : List Start := []
  discards : List (String × String) := []

structure Claim where
  run : Run
  leaseToken : String
  revision : Int
  planDigest : String
  activeSeconds : Int

/-- What a worker proves to drive a leased run. -/
structure Lease where
  sha256 : String
  key : String
  deriving DecidableEq

/-- What the random source gives one transition: the bytes of an id and of a token, each drawn at
most once, or nothing when it fails. -/
structure Entropy where
  id : Option (Vector UInt8 16)
  token : Option (Vector UInt8 32)

def newId (entropy : Entropy) : Transition String :=
  match entropy.id with
  | some bytes => .ok (hex bytes.toList)
  | none => .error .entropyUnavailable

def base64Char (sextet : Nat) : Char :=
  if sextet < 26 then Char.ofNat (65 + sextet)
  else if sextet < 52 then Char.ofNat (71 + sextet)
  else if sextet < 62 then Char.ofNat (sextet - 4)
  else if sextet == 62 then '-'
  else '_'

/-- Unpadded URL-safe base64. -/
def base64 : List UInt8 → List Char
  | a :: b :: c :: rest =>
    let bits := (a.toNat * 256 + b.toNat) * 256 + c.toNat
    base64Char (bits / 2 ^ 18) :: base64Char (bits / 2 ^ 12 % 64) ::
      base64Char (bits / 2 ^ 6 % 64) :: base64Char (bits % 64) :: base64 rest
  | [a, b] =>
    let bits := (a.toNat * 256 + b.toNat) * 4
    [base64Char (bits / 2 ^ 12), base64Char (bits / 2 ^ 6 % 64), base64Char (bits % 64)]
  | [a] => [base64Char (a.toNat / 4), base64Char (a.toNat % 4 * 16)]
  | [] => []

def newToken (entropy : Entropy) : Transition String :=
  match entropy.token with
  | some bytes => .ok (String.ofList (base64 bytes.toList))
  | none => .error .entropyUnavailable

def continuous (routine : Routine) : Bool :=
  string (fieldOf routine.schedule "kind") == some "continuous"

/-- How late a run may still start: one period, and at most 12 hours. -/
def graceSeconds (routine : Routine) : Int :=
  let kind := string (fieldOf routine.schedule "kind")
  let period := if kind == some "daily" then 86400
    else if kind == some "weekly" then 7 * 86400
    else if kind == some "monthly" then 28 * 86400
    else maxGraceSeconds
  min period maxGraceSeconds

def liveRuns (state : TeamRoutines) : List Run := state.runs.filter fun item => item.status.live

/-- The Team's held runs' incidents, unresolved or set aside. -/
def incidents (state : TeamRoutines) : List Run := state.runs.filter fun item => !item.status.live

def found {α : Type} (refusal : RoutineStateError) : Option α → Transition α
  | some value => .ok value
  | none => .error refusal

def routine (state : TeamRoutines) (routineId : String) : Transition Routine :=
  found .routineNotFound (state.routines.find? fun item => item.routineId == routineId)

def run (state : TeamRoutines) (runId : String) : Transition Run :=
  found .runNotFound (state.runs.find? fun item => item.runId == runId)

def replaceRoutine (state : TeamRoutines) (updated : Routine) : TeamRoutines :=
  { state with routines := replaceFirst Routine.routineId updated state.routines }

def replaceRun (state : TeamRoutines) (updated : Run) : TeamRoutines :=
  { state with runs := replaceFirst Run.runId updated state.runs }

/-- A continuous Routine's next run once its run ended at `now`. -/
def rebaseContinuous (state : TeamRoutines) (routineId : String) (now : Int) : TeamRoutines :=
  match state.routines.find? fun item => item.routineId == routineId with
  | some current =>
    if continuous current then
      replaceRoutine state { current with nextRunAt := max now current.nextRunAt }
    else state
  | none => state

def ended (state : TeamRoutines) (value : Run) (now : Int) : TeamRoutines :=
  rebaseContinuous { state with discards := state.discards ++ [(value.runId, value.generation)] }
    value.routineId now

/-- Removes an ended run and queues the removal of everything it held. -/
def withoutRun (state : TeamRoutines) (runId : String) (now : Int) : Transition TeamRoutines := do
  let value ← run state runId
  .ok (ended { state with runs := state.runs.filter fun item => item.runId != runId } value now)

def discarded (state : TeamRoutines) (runId generation : String) : TeamRoutines :=
  { state with discards := state.discards.filter fun held =>
      !(held.1 == runId && held.2 == generation) }

/-- Pausar, or resume, which starts a fresh failure streak. -/
def setPaused (state : TeamRoutines) (routineId : String) (paused : Bool) :
    Transition TeamRoutines := do
  let value ← routine state routineId
  if value.deleting then .error .routineNotFound
  else
    .ok (replaceRoutine state { value with paused := paused, failures := if paused then value.failures else 0 })

def beginDelete (state : TeamRoutines) (routineId : String) :
    Transition (TeamRoutines × List Run) := do
  let value ← routine state routineId
  .ok (replaceRoutine state { value with deleting := true },
    (liveRuns state).filter fun item => item.routineId == routineId)

section

variable [Platform]

def leaseSha256 (token : String) : String := sha256Hex token

/-- The Routine's next firing strictly after `after`. -/
def nextAfter (routine : Routine) (after : Int) : Transition Int :=
  found .routineInvalid
    (nextRun routine.schedule (fieldOf routine.plan "timezone") routine.anchor after)

end

def isNetworkChar (character : Char) : Bool :=
  isAlnum character || ['.', '_', '/', '-'].contains character

def generationRun (rest : List Char) : Option String :=
  let id := rest.take 32
  let suffix := rest.drop 32
  if routineIdRe (String.ofList id) &&
      (suffix == [] || suffix == [':', 's', '1'] || suffix == [':', 'v', '1']) then
    some (String.ofList id)
  else none

def generationParts (generation : String) : Option (String × String) :=
  let network := generation.toList.takeWhile fun character => character != ':'
  let rest := generation.toList.dropWhile fun character => character != ':'
  if isHeaded isAlnum isNetworkChar 127 network && rest.take 9 == ":routine:".toList then
    (generationRun (rest.drop 9)).map fun run => (String.ofList network, run)
  else none

def planSteps (plan : Value) : List Value := elements (fieldOf plan "steps")

def runUnits (value : Routine) : Int := (planSteps value.plan).length

def positionOf (plan : Value) (stepId : String) : Option Int :=
  ((planSteps plan).findIdx? fun step => string (fieldOf step "id") == some stepId).map
    fun index => (index : Int) + 1

def entryOf (permitted : List Value) (assistant action : Value) : Option Value :=
  permitted.find? fun item =>
    fieldOf item "assistant" == assistant && fieldOf item "action" == action

def disposition (plan : Value) : Value :=
  let output := fieldOf plan "output"
  objectOf [("mode", fieldOf output "mode"),
    ("step", if isNull (fieldOf output "step") then .null else int (planSteps plan).length)]

def pushRun (runs : List (Value × Value × Int)) (step : Value) : List (Value × Value × Int) :=
  match runs with
  | (assistant, action, count) :: rest =>
    if assistant == fieldOf step "assistant" && action == fieldOf step "action" then
      (assistant, action, count + 1) :: rest
    else (fieldOf step "assistant", fieldOf step "action", 1) :: runs
  | [] => [(fieldOf step "assistant", fieldOf step "action", 1)]

def actionRuns (steps : List Value) : List (Value × Value × Int) := (steps.foldl pushRun []).reverse

/-- The Action units a Routine's rolling 24-hour cap allocates. -/
def dailySteps (value : Routine) : Int := dailyCap value.schedule * runUnits value

/-- The daily Action units left after these Routines' allocations. -/
def capacity (routines : List Routine) : Int := maxDailySteps - (routines.map dailySteps).sum

section

variable [Platform]

/-- A step-output source's item selector as a person reads it. -/
def shownWhere (source : Value) : Option Value :=
  ((source.get "where").bind fun found => (members found).head?).map fun (key, constant) =>
    objectOf [("member", text key), ("value_json", ((whereText constant).map Value.string).getD .null)]

def projectedInput (plan : Value) (member : String × Value) : Value :=
  let (name, source) := member
  let kind := string (fieldOf source "kind")
  if kind == some "literal" then
    objectOf [("member", text name), ("source", text "literal"),
      ("value", text (literalPreview (fieldOf source "value")))]
  else if kind == some "run_clock" then
    let written := if string (fieldOf source "format") == some "date" then "date"
      else shown (elements (fieldOf source "parts"))
    objectOf [("member", text name), ("source", text "run_clock"), ("value", text (preview written))]
  else
    objectOf [("member", text name), ("source", text "step_output"),
      ("step", (((string (fieldOf source "step")).bind (positionOf plan)).map int).getD .null),
      ("pointer", fieldOf source "pointer"), ("where", (shownWhere source).getD .null),
      ("item", (source.get "item").getD .null)]

/-- The projection of the step at a position, `none` outside the plan or its permission. -/
def projectedStep (plan : Value) (permitted : List Value) (place : Int) : Option Value :=
  if place < 1 then none
  else
    ((planSteps plan)[(place - 1).toNat]?).bind fun value =>
      (entryOf permitted (fieldOf value "assistant") (fieldOf value "action")).map fun entry =>
        let names := (members (fieldOf value "input")).insertionSort
          fun left right => left.1 ≤ right.1
        objectOf [("position", int place), ("assistant", fieldOf value "assistant"),
          ("action", fieldOf value "action"), ("read_only", fieldOf entry "read_only"),
          ("inputs", .array (names.map (projectedInput plan))),
          ("stored_inputs", fieldOf entry "stored_inputs")]

/-- Whether every step's projection stays within its own wire bound. -/
def stepsFit (plan : Value) (permitted : List Value) : Bool :=
  (List.range (planSteps plan).length).all fun index =>
    (projectedStep plan permitted (index + 1)).any fun projected => exactStep projected (index + 1)

def summary (plan : Value) (revision : Int) : Value :=
  let runs := (actionRuns (planSteps plan)).take maxSummaryRuns
  let total : Int := (planSteps plan).length
  objectOf [("revision", int revision), ("plan_digest", text (digest plan)), ("steps", int total),
    ("actions", .array (runs.map fun run => .array [run.1, run.2.1, int run.2.2])),
    ("more", int (total - (runs.map fun run => run.2.2).sum))]

def definitionBytes (value : Routine) : Nat :=
  encodedBytes value.plan +
    encodedBytes (objectOf [("permitted", .array value.permitted), ("confirmation", value.confirmation.getD .null)])

/-- Whether every projected step is within its wire bound and the definition within its budget. -/
def fits (value : Routine) : Bool :=
  stepsFit value.plan value.permitted && definitionBytes value ≤ maxDefinitionBytes

def overBudget (others : List Routine) (admitted : Routine) : Option RoutineStateError :=
  if capacity others < dailySteps admitted then some .routineStepBudget
  else if teamDefinitionBytes < (others.map definitionBytes).sum + definitionBytes admitted then
    some .routineTeamBudget
  else none

end

/-- An integer as a 64-bit machine wraps it. -/
def wrap64 (value : Int) : Int := (value + 2 ^ 63) % 2 ^ 64 - 2 ^ 63

def undelivered (state : TeamRoutines) : Nat := state.notices.length

def acknowledge (state : TeamRoutines) (delivered : List (String × Int)) : TeamRoutines :=
  { state with notices := state.notices.filter fun item =>
      !(delivered.any fun version => version.1 == item.noticeId && version.2 == item.version) }

def noticeName (state : TeamRoutines) (notice : Notice) : Transition String :=
  if notice.name.isEmpty then (routine state notice.routineId).map Routine.name else .ok notice.name

section

variable [Platform]

/-- Adds or updates an undelivered notice, which is never evicted. -/
def putNotice (state : TeamRoutines) (notice : Notice) : Transition TeamRoutines := do
  let detail ← found .noticeInvalid (canonicalNoticeDetail (text notice.outcome) notice.detail)
  let name ← noticeName state notice
  if notice.version < 1 then .error .noticeInvalid
  else
    let kept := state.notices.filter fun item => item.noticeId != notice.noticeId
    if maxUndeliveredNotices + maxRoutineNotices ≤ kept.length then .error .noticesFull
    else .ok { state with notices := kept ++ [{ notice with detail := detail, name := name }] }

/-- A Routine after one of its runs ended with an outcome that counts for its streak, and whether
the streak pauses it now. -/
def streaked (current : Routine) (outcome : String) : Routine × Bool :=
  let failures := if outcome == "failed" then current.failures + 1 else 0
  let streak := !current.paused && maxFailureStreak ≤ failures
  ({ current with failures := failures, paused := current.paused || streak }, streak)

def counts (outcome : String) : Bool := ["done", "recovered", "failed"].contains outcome

def countStreak (state : TeamRoutines) (value : Run) (outcome : String) (now : Int)
    (entropy : Entropy) : Transition TeamRoutines :=
  if counts outcome then do
    let current ← routine state value.routineId
    let (current, streak) := streaked current outcome
    if streak then do
      let id ← newId entropy
      putNotice (replaceRoutine state current)
        { noticeId := id, routineId := current.routineId, runId := "", outcome := "streak-paused",
          createdAt := now, detail := objectOf [("failures", int current.failures)] }
    else .ok (replaceRoutine state current)
  else .ok state

def runNotice (state : TeamRoutines) (value : Run) (outcome : String) (now : Int) (detail : Value)
    (entropy : Entropy) : Transition (TeamRoutines × Run) := do
  let version := wrap64 (value.noticeVersion + 1)
  let state ← putNotice state
    { noticeId := value.runId, routineId := value.routineId, runId := value.runId,
      outcome := outcome, createdAt := now, detail := detail, version := version,
      usage := some value.usage, protectionLost := value.protectionLost }
  let state ← countStreak state value outcome now entropy
  .ok (state, { value with noticeVersion := version })

/-- Removes a deleting Routine once none of its runs remains, with its `deleted` notice. -/
def completeDelete (state : TeamRoutines) (routineId : String) (now : Int) (entropy : Entropy) :
    Transition TeamRoutines := do
  let value ← routine state routineId
  if !value.deleting || state.runs.any fun item => item.routineId == routineId then
    .error .routineBusy
  else do
    let id ← newId entropy
    let state ← putNotice state
      { noticeId := id, routineId := routineId, runId := "", outcome := "deleted", createdAt := now,
        detail := objectOf [] }
    .ok { state with routines := state.routines.filter fun item => item.routineId != routineId }

/-- The Routine's Assistants no longer match its pins: no claim until an authenticated update. -/
def markScopeChanged (state : TeamRoutines) (routineId : String) (now : Int) (entropy : Entropy) :
    Transition TeamRoutines := do
  let value ← routine state routineId
  let id ← newId entropy
  let state ← putNotice state
    { noticeId := id, routineId := routineId, runId := "", outcome := "scope-changed",
      createdAt := now, detail := objectOf [] }
  .ok (replaceRoutine state { value with needsReconfirm := true })

end

/-- An integer above zero, of any size. -/
def positiveInteger : Value → Bool
  | .number (.int integer) => !(integer ≤ 0)
  | .number (.bigInt digits) => digits.toList.head? != some '-'
  | _ => false

/-- The authenticated confirmation of the card that defined a revision. -/
def confirmed (value : Option Value) : Bool :=
  value.any fun value =>
    hasFields value ["proposal_id", "proposal_digest", "principal", "incarnation", "confirmed_at"] &&
      isFullValue routineIdRe (fieldOf value "proposal_id") &&
      isFullValue planDigestRe (fieldOf value "proposal_digest") &&
      isFullValue routineIdRe (fieldOf value "principal") &&
      isFullValue sha256Re (fieldOf value "incarnation") &&
      positiveInteger (fieldOf value "confirmed_at")

def permittedEntry (item : Value) : Bool :=
  let stored := elements (fieldOf item "stored_inputs")
  let names := stored.filterMap string
  hasFields item ["assistant", "action", "pin", "read_only", "stored_inputs"] &&
    (canonicalAssistantId (fieldOf item "assistant")).isSome &&
    (canonicalActionId (fieldOf item "action")).isSome &&
    isFullValue planDigestRe (fieldOf item "pin") && isBool (fieldOf item "read_only") &&
    (array (fieldOf item "stored_inputs")).isSome && stored.length ≤ maxStepStoredInputs &&
    (stored.all fun name => (canonicalIdentifier name).isSome) && names.length == stored.length &&
    adjacent (fun left right => left < right) names

def stepKey (step : Value) : String × String :=
  ((string (fieldOf step "assistant")).getD "", (string (fieldOf step "action")).getD "")

def permittedValid (value : Routine) : Bool :=
  let pins := value.permitted.map fun item =>
    (stepKey item, (string (fieldOf item "pin")).getD "")
  let steps := planSteps value.plan
  (value.permitted.length : Int) ≤ maxRoutineSteps && value.permitted.all permittedEntry &&
    adjacent (fun left right => modelBefore left.1 right.1) pins &&
    (pins.all fun pin => steps.any fun step => stepKey step == pin.1) &&
    steps.all fun step =>
      (pins.find? fun pin => pin.1 == stepKey step).any fun pin =>
        some pin.2 == string (fieldOf step "pin")

/-- A sorted list without repeats of neighbours. -/
def dedupAdjacent : List String → List String
  | first :: second :: rest =>
    if first == second then dedupAdjacent (second :: rest)
    else first :: dedupAdjacent (second :: rest)
  | rest => rest

def assistantsValid (value : Routine) : Bool :=
  let used := dedupAdjacent ((value.permitted.filterMap fun item =>
    string (fieldOf item "assistant")).insertionSort (· ≤ ·))
  value.assistants.map Prod.fst == used && value.assistants.length ≤ 16 &&
    adjacent modelBefore value.assistants &&
    value.assistants.all fun pin =>
      (canonicalAssistantId (text pin.1)).isSome && planDigestRe pin.2

variable [Platform]

/-- Whether a Routine's definition is in its closed contract. -/
def definitionValid (value : Routine) : Bool :=
  wellFormed value.plan && routineIdRe value.routineId && exactName (text value.name) &&
    exactDescription (text value.description) &&
    zoned (fieldOf value.plan "timezone") (text value.timezoneSource) &&
    exactSchedule value.schedule && permittedValid value && assistantsValid value &&
    confirmed value.confirmation && validRevision (int value.revision)

def defined (value : Routine) (revision : Int) : Transition Routine :=
  let defined := { value with revision := revision }
  if !definitionValid defined then .error .routineInvalid
  else if !fits value then .error .routineTooLarge
  else
    .ok { defined with needsReconfirm := false, deleting := false, failures := 0, outputDigest := "" }

def firstRun (value : Routine) : Transition Int :=
  if continuous value then .ok value.anchor else nextAfter value value.anchor

/-- A copy of a new Routine revision in the closed contract, scheduled from its anchor. -/
def admitted (value : Routine) (revision : Int) : Transition Routine := do
  let admitted ← defined value revision
  let first ← firstRun admitted
  if value.nextRunAt != first then .error .routineInvalid
  else
    .ok { admitted with
      gapStartedAt := 0, missed := 0, reportedMissed := 0, rollupMinute := 0, rollupRuns := 0,
      rollupUsage := none, runRequested := 0 }

/-- A definition fits its Team's budgets beside the others. -/
def budgets (others : List Routine) (admitted : Routine) : Transition Unit :=
  match overBudget others admitted with
  | some refused => .error refused
  | none => .ok ()

def addRoutine (state : TeamRoutines) (value : Routine) : Transition TeamRoutines := do
  let admitted ← admitted value 1
  if state.routines.any fun item => item.routineId == admitted.routineId then .error .routineExists
  else if maxRoutines ≤ state.routines.length then .error .routineLimit
  else do
    budgets state.routines admitted
    .ok { state with routines := state.routines ++ [admitted] }

def create (state : TeamRoutines) (value : Routine) (now : Int) (usage : Option Value)
    (steps : List Value) (entropy : Entropy) : Transition TeamRoutines := do
  let state ← addRoutine state value
  let id ← newId entropy
  putNotice state
    { noticeId := id, routineId := value.routineId, runId := "", outcome := "created",
      createdAt := now, detail := objectOf [("steps", .array steps)], usage := usage }

/-- The Routine of an id, unless it is being deleted, at exactly the revision a card saw, with no
live run. -/
def changeable (state : TeamRoutines) (routineId : String) (expectedRevision : Int) :
    Transition Routine := do
  let current ← routine state routineId
  if current.deleting then .error .routineNotFound
  else if current.revision != expectedRevision then .error .routineRevisionChanged
  else if (liveRuns state).any fun item => item.routineId == current.routineId then
    .error .routineBusy
  else .ok current

def others (state : TeamRoutines) (routineId : String) : List Routine :=
  state.routines.filter fun item => item.routineId != routineId

def putChanged (state : TeamRoutines) (changed : Routine) (now : Int) (entropy : Entropy) :
    Transition TeamRoutines := do
  let id ← newId entropy
  putNotice (replaceRoutine state changed)
    { noticeId := id, routineId := changed.routineId, runId := "", outcome := "changed",
      createdAt := now, detail := objectOf [] }

/-- Replaces a Routine's definition as its next revision, with its changed notice. -/
def update (state : TeamRoutines) (value : Routine) (expectedRevision now : Int)
    (entropy : Entropy) : Transition TeamRoutines := do
  let current ← changeable state value.routineId expectedRevision
  let changed ← admitted value (current.revision + 1)
  budgets (others state current.routineId) changed
  putChanged state
    { changed with
      paused := current.paused, rollupMinute := current.rollupMinute,
      rollupRuns := current.rollupRuns, rollupUsage := current.rollupUsage } now entropy

def refine (state : TeamRoutines) (value : Routine) (expectedRevision now : Int)
    (entropy : Entropy) : Transition TeamRoutines := do
  let current ← changeable state value.routineId expectedRevision
  if value.timezone != current.timezone then .error .routineInvalid
  else do
    let refined ← defined
      { current with
        description := value.description, assistants := value.assistants, plan := value.plan,
        permitted := value.permitted, confirmation := value.confirmation } (current.revision + 1)
    budgets (others state current.routineId) refined
    putChanged state refined now entropy

end ShimpzTeams.Routines
