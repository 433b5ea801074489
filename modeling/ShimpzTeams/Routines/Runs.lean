import ShimpzTeams.Routines.Define
import ShimpzTeams.Library.Machine
import ShimpzTeams.Library.Refusal

/-!
# The Routine state machine

Starts, sweeps of late firings, leases, and generations. A held run becomes its own
incident in the write that indexes it, and is resumed in place as the run's
continuation, or set aside by a person. Every transition of a Team's Routine state is
one call, with its own draw of the random source. The later modules read what a
transition returned and which guards it passed, and never unfold it.
-/

namespace ShimpzTeams.Routines

open StrictJson Protocol

def windowSeconds : Int := 86400

/-- The starts still inside the 24 hours that end at `now`, oldest first. -/
def window (starts : List Start) (now : Int) : List Start :=
  (starts.filter fun item => now - windowSeconds < item.2.1).insertionSort
    fun left right => left.2.1 ≤ right.2.1

/-- When one more start fits under `limit`. -/
def freeAtLimit (instants : List Int) (limit now : Int) : Int :=
  if (instants.length : Int) < limit then now
  else
    match instants[((instants.length : Int) - limit).toNat]? with
    | some instant => instant + windowSeconds
    | none => now

/-- When a start fits under the Team's daily step budget, as the oldest starts leave. -/
def stepsFreeFrom (steps : Int) : Int → Int → List Start → Int
  | _, now, [] => now
  | used, now, (_, instant, reserved) :: rest =>
    if used + steps ≤ maxDailySteps then now
    else stepsFreeFrom steps (used - reserved) (instant + windowSeconds) rest

/-- When a start of `steps` business steps fits beside the window's starts. -/
def stepsFreeAt (current : List Start) (steps now : Int) : Int :=
  stepsFreeFrom steps (current.map fun item => item.2.2).sum now current

/-- The earliest instant the Routine may start again under its own cap and the Team's budget. -/
def startsFreeAt (starts : List Start) (routineId : String) (cap : Option Int) (now steps : Int) : Int :=
  let current := window starts now
  let own := match cap with
    | some cap =>
      freeAtLimit ((current.filter fun item => item.1 == routineId).map fun item => item.2.1)
        cap now
    | none => now
  max own (stepsFreeAt current steps now)

/-- The window after one more start of the Routine at `now`. -/
def started (starts : List Start) (routineId : String) (now steps : Int) : List Start :=
  window starts now ++ [(routineId, now, steps)]

/-- A Routine with more firings missed in its current stretch. -/
def miss (routine : Routine) (first count nextRunAt : Int) : Routine :=
  { routine with
    gapStartedAt := if routine.gapStartedAt == 0 then first else routine.gapStartedAt,
    missed := routine.missed + count, nextRunAt := nextRunAt }

def freeAt (state : TeamRoutines) (routine : Routine) (now : Int) : Int :=
  startsFreeAt state.starts routine.routineId
    (if continuous routine then some (dailyCap routine.schedule) else none) now (runUnits routine)

def dueAt (routine : Routine) : Int :=
  if routine.runRequested != 0 && routine.runRequested < routine.nextRunAt then
    routine.runRequested
  else routine.nextRunAt

def segmentLeased (state : TeamRoutines) : Bool :=
  state.runs.any fun item => item.status == .leased

def unresolvedRuns (state : TeamRoutines) : List Run :=
  state.runs.filter fun item => item.status == .unresolved

/-- Whether one more run may start, reserving the room its incident would need. -/
def incidentCapacity (state : TeamRoutines) : Bool :=
  (unresolvedRuns state).length + ((liveRuns state).length + 1) ≤ maxUnresolvedIncidents &&
    state.runs.length < maxRuns

/-- Whether the Team must catch up before any run starts. -/
def backpressured (state : TeamRoutines) : Bool :=
  maxUndeliveredNotices ≤ undelivered state || maxRoutines ≤ state.discards.length || !incidentCapacity state

def busy (state : TeamRoutines) : List String :=
  (liveRuns state).map Run.routineId ++ (unresolvedRuns state).map Run.routineId

/-- The Routines that may start once due and under their caps. -/
def ready (state : TeamRoutines) (long : Bool) : List Routine :=
  state.routines.filter fun item =>
    !item.needsReconfirm && !item.deleting && !item.paused &&
      !(busy state).contains item.routineId && (long || !longRun (runUnits item))

def dueBefore (left right : Routine) : Bool :=
  dueAt left < dueAt right || (dueAt left == dueAt right && left.routineId < right.routineId)

def oldest : List Routine → Option Routine
  | [] => none
  | item :: rest =>
    some (rest.foldl (fun best other => if dueBefore other best then other else best) item)

def claimable (state : TeamRoutines) (now : Int) (long : Bool) : Option Routine :=
  if backpressured state || segmentLeased state then none
  else
    oldest ((ready state long).filter fun item =>
      dueAt item ≤ now && freeAt state item now ≤ now)

def leaseUntil (value : Run) (now : Int) : Int :=
  now + max value.activeSecondsLeft 0 + leaseMarginSeconds

def requireLease (value : Run) (lease : Lease) (now : Int) : Transition Unit :=
  if value.status != .leased || value.leaseSha256 != lease.sha256 ||
      value.leaseKey != lease.key || value.leaseExpiresAt ≤ now || value.activeSecondsLeft ≤ 0 then
    .error .leaseInvalid
  else .ok ()

def leased (state : TeamRoutines) (runId : String) : Transition Run := do
  let value ← run state runId
  if value.status != .leased then .error .runNotRunning else .ok value

def liveLease (state : TeamRoutines) (runId : String) (lease : Lease) (now : Int) :
    Transition Run := do
  let value ← leased state runId
  requireLease value lease now
  .ok value

def readLease (state : TeamRoutines) (runId leaseSha256 : String) : Transition Run := do
  let value ← leased state runId
  if value.leaseSha256 != leaseSha256 then .error .runChanged else .ok value

def generationFor (networkId runId suffix : String) : String :=
  if suffix.isEmpty then networkId ++ ":routine:" ++ runId
  else networkId ++ ":routine:" ++ runId ++ ":" ++ suffix

def networkOf (generation runId : String) : Option String :=
  (generationParts generation).bind fun (network, run) =>
    if run == runId then some network else none

def bindGeneration (state : TeamRoutines) (runId : String) (lease : Lease) (now : Int)
    (networkId : String) : Transition TeamRoutines := do
  let value ← liveLease state runId lease now
  let generation := if value.generation.isEmpty then generationFor networkId runId ""
    else value.generation
  if !safeIdRe generation || networkOf generation runId != some networkId then
    .error .generationInvalid
  else
    .ok (replaceRun state
      { value with
        generation := generation,
        leaseExpiresAt := if value.generation.isEmpty then
            max value.leaseExpiresAt (leaseUntil value now)
          else value.leaseExpiresAt })

section

variable [Platform]

/-- The firings counted from `current` up to `limit`, and the firing reached. -/
def countFrom (routine : Routine) (limit : Int) : Nat → Int → Int → Transition (Int × Int)
  | 0, count, current => .ok (count, current)
  | fuel + 1, count, current =>
    if current < limit then do
      let next ← nextAfter routine current
      countFrom routine limit fuel (count + 1) next
    else .ok (count, current)

/-- The firings from `first` up to (not including) `limit`, bounded, and the first firing at or
after it. -/
def countBefore (routine : Routine) (first limit : Int) : Transition (Int × Int) := do
  let (count, current) ← countFrom routine limit maxCountedMisses 0 first
  if current < limit then do
    let next ← nextAfter routine (limit - 1)
    .ok (count, next)
  else .ok (count, current)

def gapNoticeId (routine : Routine) : String :=
  String.ofList ((sha256Hex ("skipped:" ++ routine.routineId ++ ":" ++ toString routine.gapStartedAt)).toList.take 32)

def reportGap (state : TeamRoutines) (routine : Routine) (now : Int) (inFlight : Bool) : Transition TeamRoutines :=
  if routine.missed == routine.reportedMissed then .ok state
  else
    let noticeId := gapNoticeId routine
    let pending := state.notices.any fun item => item.noticeId == noticeId
    if !(pending || inFlight || undelivered state < maxUndeliveredNotices) then .ok state
    else do
      let state ← putNotice state
        { noticeId := noticeId, routineId := routine.routineId, runId := "", outcome := "skipped",
          createdAt := now, detail := objectOf [("missed", int routine.missed)],
          version := routine.missed }
      .ok (replaceRoutine state { routine with reportedMissed := routine.missed })

/-- Skips one Routine's firings too late to start. -/
def sweepRoutine (state : TeamRoutines) (item : Routine) (now : Int) : Transition TeamRoutines :=
  if continuous item then .ok state
  else
    let cutoff := now - graceSeconds item
    if item.nextRunAt < cutoff then do
      let (count, nextRunAt) ← countBefore item item.nextRunAt cutoff
      let missed := miss item item.nextRunAt count nextRunAt
      reportGap (replaceRoutine state missed) missed now false
    else reportGap state item now false

def sweepFrom (now : Int) : TeamRoutines → List Routine → Transition TeamRoutines
  | state, [] => .ok state
  | state, item :: rest => do
      let state ← sweepRoutine state item now
      sweepFrom now state rest

/-- Skips every firing too late to start. -/
def sweep (state : TeamRoutines) (now : Int) : Transition TeamRoutines :=
  sweepFrom now state state.routines

def lease (state : TeamRoutines) (due : Routine) (now : Int) (keyFingerprint : String)
    (entropy : Entropy) : Transition (TeamRoutines × Claim) := do
  let token ← newToken entropy
  let id ← newId entropy
  let units := runUnits due
  let leased : Run :=
    { runId := id, routineId := due.routineId, status := .leased,
      leaseSha256 := leaseSha256 token, leaseKey := keyFingerprint,
      leaseExpiresAt := now + startLeaseSeconds, activeSecondsLeft := activeSeconds units,
      revision := due.revision }
  let state := { state with
    starts := started state.starts due.routineId now units, servedAt := now,
    runs := state.runs ++ [leased] }
  .ok (replaceRoutine state due,
    { run := leased, leaseToken := token, revision := due.revision, planDigest := digest due.plan,
      activeSeconds := leased.activeSecondsLeft })

/-- The Routine whose firing at or before `now` is served, its firings since then missed. -/
def serve (due : Routine) (now : Int) : Transition Routine :=
  let due := { due with runRequested := 0 }
  if continuous due then do
    let next ← nextAfter due now
    .ok { due with nextRunAt := next }
  else do
    let following ← nextAfter due due.nextRunAt
    let (extra, next) ← countBefore due following (now + 1)
    .ok (if extra == 0 then { due with nextRunAt := next } else miss due following extra next)

/-- Leases one run of the Team's oldest claimable Routine, rechecked on this exact state. -/
def claim (state : TeamRoutines) (now : Int) (keyFingerprint : String) (long : Bool)
    (entropy : Entropy) : Transition (TeamRoutines × Option Claim) :=
  if !sha256Re keyFingerprint then .error .routineKeyInvalid
  else do
    let state ← sweep state now
    match claimable state now long with
    | none => .ok (state, none)
    | some due =>
      if due.runRequested != 0 && now < due.nextRunAt then do
        let (state, claim) ← lease state { due with runRequested := 0 } now keyFingerprint entropy
        .ok (state, some claim)
      else do
        let due ← serve due now
        let state ← reportGap (replaceRoutine state due) due now true
        let current ← routine state due.routineId
        let (state, claim) ← lease state
          { current with gapStartedAt := 0, missed := 0, reportedMissed := 0 } now
          keyFingerprint entropy
        .ok (state, some claim)

/-- The run leased again at once for a person's answer, under a fresh internal lease. -/
def humanLeased (value : Run) (now : Int) (entropy : Entropy) : Transition (Run × String) := do
  let token ← newToken entropy
  .ok ({ value with
      status := .leased, leaseSha256 := leaseSha256 token, leaseKey := humanLease,
      leaseExpiresAt := leaseUntil value now, requestKind := "", assistantId := "", action := "",
      position := none, steps := 0 }, token)

end

/-- The call a held run stopped at: its Assistant, Action, position, and its plan's step count. -/
structure HeldStep where
  assistantId : String
  action : String
  position : Option Int
  steps : Int

def unknownStep : HeldStep := ⟨"", "", none, 0⟩

/-- Why recovery paused a held run's Routine. -/
inductive PauseReason where
  | exhausted
  | policy
  | evidence
  deriving DecidableEq

/-- Its name on the notice. -/
def PauseReason.asStr : PauseReason → String
  | .exhausted => "exhausted"
  | .policy => "policy"
  | .evidence => "evidence"

/-- What a person's recovery card was opened on. -/
structure Expected where
  revision : Int
  generation : String
  current : Int

/-- The held run's incident, unresolved or set aside. -/
def incident (state : TeamRoutines) (incidentId : String) : Transition Run :=
  found .incidentNotFound ((incidents state).find? fun item => item.runId == incidentId)

/-- The held run's incident that nothing settled yet. -/
def unresolvedIncident (state : TeamRoutines) (incidentId : String) : Transition Run := do
  let value ← incident state incidentId
  if value.status != .unresolved then .error .incidentNotUnresolved else .ok value

def currentRevision (state : TeamRoutines) (routineId : String) : Int :=
  ((state.routines.find? fun item => item.routineId == routineId && !item.deleting).map Routine.revision).getD 0

/-- Refuses a card's transition when the incident or its Routine changed since the card opened. -/
def expect (state : TeamRoutines) (value : Run) (expected : Option Expected) : Transition Unit :=
  match expected with
  | none => .ok ()
  | some expected =>
    if value.revision != expected.revision || value.generation != expected.generation ||
        currentRevision state value.routineId != expected.current then .error .incidentChanged
    else .ok ()

/-- Charges time a held run's recovery spent outside any segment to its active time left. -/
def spendIncident (state : TeamRoutines) (incidentId : String) (seconds : Int) :
    Transition TeamRoutines := do
  let value ← incident state incidentId
  .ok (replaceRun state { value with activeSecondsLeft := max (wrap64 (value.activeSecondsLeft - seconds)) 0 })

/-- A skipped incident's archive marker, cursor, and evidence are gone: its record goes. -/
def releaseIncident (state : TeamRoutines) (incidentId : String) : Transition TeamRoutines :=
  match state.runs.find? fun item => item.runId == incidentId with
  | none => .ok state
  | some value =>
    if value.status != .skipped then .error .incidentNotSkipped
    else .ok { state with runs := state.runs.filter fun item => item.runId != incidentId }

/-- Stops a run's lease so no worker may advance it. -/
def held (state : TeamRoutines) (value : Run) : Transition TeamRoutines :=
  if value.generation.isEmpty then .error .generationInvalid
  else
    .ok (replaceRun state { value with status := .held, leaseSha256 := "", leaseKey := "", leaseExpiresAt := 0 })

def fence (state : TeamRoutines) (runId : String) (lease : Lease) (now : Int) :
    Transition TeamRoutines := do
  let value ← liveLease state runId lease now
  held state value

def holdRecovered (state : TeamRoutines) (runId leaseSha256 : String) :
    Transition TeamRoutines := do
  let value ← readLease state runId leaseSha256
  held state value

section

variable [Platform]

/-- A person sets the held run aside, never verified, replayed, or fabricated. -/
def skipIncident (state : TeamRoutines) (incidentId : String) (now : Int)
    (expected : Option Expected) (entropy : Entropy) : Transition TeamRoutines := do
  let value ← unresolvedIncident state incidentId
  expect state value expected
  let (state, skipped) ← runNotice state value "user-skipped" now (objectOf []) entropy
  .ok (replaceRun state { skipped with status := .skipped })

def settleHold (state : TeamRoutines) (runId : String) (now : Int) (step : HeldStep)
    (entropy : Entropy) : Transition TeamRoutines := do
  let value ← run state runId
  if value.status != .held then .error .runNotHeld
  else do
    let current ← routine state value.routineId
    let (state, indexed) ← runNotice state value "held" now (objectOf []) entropy
    let indexed := { indexed with
      status := .unresolved, assistantId := step.assistantId, action := step.action,
      position := step.position, steps := step.steps }
    let state := ended (replaceRun state indexed) indexed now
    if current.deleting then skipIncident state runId now none entropy else .ok state

/-- Resumes a held run in place after Team-admitted evidence, as its continuation. -/
def reopenIncident (state : TeamRoutines) (incidentId : String) (now : Int) (generation : String)
    (entropy : Entropy) : Transition (TeamRoutines × String) := do
  let value ← unresolvedIncident state incidentId
  let current ← routine state value.routineId
  if current.deleting || current.paused || current.revision != value.revision then
    .error .routineNotResumable
  else if value.activeSecondsLeft ≤ 0 then .error .runTimeExhausted
  else if ((liveRuns state).any fun item => item.routineId == value.routineId) ||
      (networkOf generation incidentId).isNone then .error .routineBusy
  else do
    let (resumed, token) ← humanLeased value now entropy
    let state := replaceRun state { resumed with generation := generation }
    let archived := (incidentId, value.generation)
    .ok (if state.discards.contains archived then state
      else { state with discards := state.discards ++ [archived] }, token)

def runIncident (state : TeamRoutines) (incidentId : String) (now : Int) (expected : Expected)
    (entropy : Entropy) : Transition TeamRoutines := do
  let value ← incident state incidentId
  let state ← skipIncident state incidentId now (some expected) entropy
  let state ← setPaused state value.routineId false
  let current ← routine state value.routineId
  .ok (replaceRoutine state { current with runRequested := now })

/-- Recovery paused the Routine an unresolved incident holds, and the run's notice says why. -/
def pauseIncident (state : TeamRoutines) (incidentId : String) (now : Int) (reason : PauseReason)
    (entropy : Entropy) : Transition TeamRoutines := do
  let value ← unresolvedIncident state incidentId
  let state ← setPaused state value.routineId true
  let (state, noticed) ← runNotice state value "paused" now
    (objectOf [("reason", text reason.asStr)]) entropy
  .ok (replaceRun state noticed)

end

/-- A run's summed active duration at most. -/
def maxUsageMs : Int := maxTurnDurationMs

def duration (usage : Value) : Int := (smallInt (fieldOf usage "duration_ms")).getD 0

/-- A duration and some milliseconds more, within the bound. -/
def joinedDuration (usage : Value) (milliseconds : Int) : Int :=
  min (min (duration usage + milliseconds) (2 ^ 63 - 1)) maxUsageMs

/-- Two usages summed: their active durations, within the bound. -/
def joinedUsage (first second : Value) : Value :=
  objectOf [("duration_ms", int (joinedDuration first (duration second)))]

/-- Charges one segment's active time to the run: seconds to its budget, milliseconds to its
usage. -/
def spend (state : TeamRoutines) (runId : String) (lease : Lease) (now : Int)
    (elapsed : Int × Int) : Transition TeamRoutines :=
  let (seconds, milliseconds) := elapsed
  if seconds < 0 || milliseconds < 0 then .error .invalidDuration
  else do
    let value ← liveLease state runId lease now
    .ok (replaceRun state
      { value with
        usage := set value.usage "duration_ms" (int (joinedDuration value.usage milliseconds)),
        activeSecondsLeft := value.activeSecondsLeft - seconds })

def loseProtection (state : TeamRoutines) (runId : String) : Transition TeamRoutines := do
  let value ← run state runId
  .ok (replaceRun state { value with protectionLost := true })

structure Request where
  kind : String
  assistantId : String
  action : String
  position : Int

def requestPlaced (plan : Value) (request : Request) : Bool :=
  let steps := planSteps plan
  exactPosition (int request.position) (int steps.length) &&
    (steps[(request.position - 1).toNat]?).any fun step =>
      string (fieldOf step "assistant") == some request.assistantId &&
        string (fieldOf step "action") == some request.action

/-- A completed run that tells the person nothing still resets its Routine's failure streak. -/
def quiet (state : TeamRoutines) (current : Routine) : TeamRoutines :=
  replaceRoutine state { current with failures := 0 }

/-- How a run that completed every step ends: recovered when a continuation completed it. -/
def completed (value : Run) : String :=
  if (networkOf value.generation value.runId).map (fun network =>
      generationFor network value.runId "") == some value.generation then "done"
  else "recovered"

def allowedOutcomes : RunStatus → List String
  | .leased => ["stopped", "failed"]
  | .frozen => frozenOutcomes
  | _ => []

section

variable [Platform]

def freeze (state : TeamRoutines) (runId : String) (lease : Lease) (now : Int) (request : Request)
    (entropy : Entropy) : Transition TeamRoutines := do
  let value ← liveLease state runId lease now
  let current ← routine state value.routineId
  if current.deleting then .error .routineDeleting
  else if !requestKinds.contains request.kind ||
      (canonicalAssistantId (text request.assistantId)).isNone ||
      (canonicalActionId (text request.action)).isNone ||
      !requestPlaced current.plan request then .error .freezeInvalid
  else if maxFrozenRuns ≤ (state.runs.filter fun item => item.status == .frozen).length then
    .error .frozenLimit
  else do
    let (state, frozen) ← runNotice state value "frozen" now
      (objectOf [("request_kind", text request.kind)]) entropy
    .ok (replaceRun state
      { frozen with
        status := .frozen, leaseSha256 := "", leaseKey := "", leaseExpiresAt := 0,
        requestKind := request.kind, assistantId := request.assistantId,
        action := request.action })

def thaw (state : TeamRoutines) (runId : String) (now requestsUsed : Int) (entropy : Entropy) :
    Transition (TeamRoutines × String) := do
  let value ← run state runId
  if value.status != .frozen then .error .runNotFrozen
  else do
    let current ← routine state value.routineId
    if current.deleting then .error .runNotFrozen
    else do
      let (resumed, token) ← humanLeased value now entropy
      .ok (replaceRun state { resumed with requestsUsed := max value.requestsUsed requestsUsed }, token)

def minuteOf (now : Int) : Int := now - now % 60

def rolledRuns (current : Routine) (now : Int) : Int :=
  if current.rollupMinute == minuteOf now then current.rollupRuns + 1 else 1

def rolledUsage (current : Routine) (value : Run) (now : Int) : Value :=
  match current.rollupUsage with
  | some rollup =>
    if current.rollupMinute == minuteOf now then joinedUsage rollup value.usage else value.usage
  | none => value.usage

def rolledForm (current : Routine) (value : Run) (now : Int) : Routine :=
  { current with
    rollupMinute := minuteOf now, rollupRuns := rolledRuns current now,
    rollupUsage := some (rolledUsage current value now), failures := 0 }

def rollupNoticeId (routineId : String) (minute : Int) : String :=
  String.ofList ((sha256Hex ("healthy:" ++ routineId ++ ":" ++ toString minute)).toList.take 32)

def rollupNotice (current : Routine) (value : Run) (now : Int) : Notice :=
  { noticeId := rollupNoticeId current.routineId (minuteOf now), routineId := current.routineId,
    runId := "", outcome := "healthy", createdAt := minuteOf now,
    detail := objectOf [("runs", int (rolledRuns current now))],
    version := rolledRuns current now, usage := some (rolledUsage current value now) }

/-- Rolls a continuous Routine's healthy run into the notice of the minute it ended in, `none` when
the run rolls up into nothing. -/
def healthy (state : TeamRoutines) (value : Run) (now : Int) :
    Transition (Option TeamRoutines) := do
  let current ← routine state value.routineId
  if !continuous current then .ok none
  else if minuteOf now < current.rollupMinute || maxRollupRuns < rolledRuns current now then .ok none
  else do
    let state ← putNotice (replaceRoutine state (rolledForm current value now))
      (rollupNotice current value now)
    .ok (some state)

def rolledUp (state : TeamRoutines) (value : Run) (outcome : String) (now : Int) : Transition (Option TeamRoutines) :=
  if outcome == "done" then healthy state value now else .ok none

def validShown (current : Routine) (value : Run) (shown : Option Value) : Option Value :=
  shown.filter fun shown =>
    fieldOf shown "step" == fieldOf (fieldOf current.plan "output") "step" && !value.protectionLost

def tellCompletion (state : TeamRoutines) (current : Routine) (value : Run) (outcome : String)
    (now : Int) (output : Value) (entropy : Entropy) : Transition TeamRoutines :=
  (runNotice state value outcome now
    (objectOf [("plan", summary current.plan current.revision), ("output", output)]) entropy).map
    Prod.fst

def shownOutput (current : Routine) (value : Run) (shown : Option Value) : Value :=
  match validShown current value shown with
  | some shown => fieldOf shown "output"
  | none => outputState (fieldOf (disposition current.plan) "step") "unavailable"

def shownDigest (current : Routine) (value : Run) (shown : Option Value) : Option String :=
  (validShown current value shown).bind fun shown => string (fieldOf shown "digest")

def showCompletion (state : TeamRoutines) (current : Routine) (value : Run) (mode outcome : String)
    (now : Int) (shown : Option Value) (entropy : Entropy) : Transition TeamRoutines :=
  let output := shownOutput current value shown
  let digest := shownDigest current value shown
  if mode == "changes" && string (fieldOf output "state") == some "shown" then
    if digest.any fun digest => digest == current.outputDigest then
      if value.noticeVersion == 0 then .ok (quiet state current)
      else
        tellCompletion state current value outcome now
          (outputState (fieldOf (disposition current.plan) "step") "unchanged") entropy
    else
      tellCompletion (replaceRoutine state { current with outputDigest := digest.getD "" }) current
        value outcome now output entropy
  else tellCompletion state current value outcome now output entropy

def completion (state : TeamRoutines) (value : Run) (outcome : String) (now : Int)
    (shown : Option Value) (entropy : Entropy) : Transition TeamRoutines := do
  let current ← routine state value.routineId
  let mode := (string (fieldOf (fieldOf current.plan "output") "mode")).getD ""
  if shownModes.contains mode then
    showCompletion state current value mode outcome now shown entropy
  else if value.noticeVersion == 0 && !value.protectionLost then do
    let rolled ← rolledUp state value outcome now
    match rolled with
    | some state => .ok state
    | none => .ok (quiet state current)
  else tellCompletion state current value outcome now .null entropy

def completedRun (state : TeamRoutines) (value : Run) (now : Int) (shown : Option Value)
    (entropy : Entropy) : Transition TeamRoutines := do
  let state ← completion state value (completed value) now shown entropy
  withoutRun state value.runId now

def finish (state : TeamRoutines) (runId : String) (lease : Lease) (now : Int)
    (shown : Option Value) (entropy : Entropy) : Transition TeamRoutines := do
  let value ← liveLease state runId lease now
  completedRun state value now shown entropy

/-- Team's watchdog ends a leased run whose sealed cursor completed every step. -/
def completeRecovered (state : TeamRoutines) (runId leaseSha256 : String) (now : Int)
    (shown : Option Value) (entropy : Entropy) : Transition TeamRoutines := do
  let value ← readLease state runId leaseSha256
  completedRun state value now shown entropy

def endRun (state : TeamRoutines) (runId : String) (now : Int) (outcome : String) (detail : Value)
    (status : Option RunStatus) (entropy : Entropy) : Transition TeamRoutines := do
  let value ← run state runId
  if status.any fun status => value.status != status then .error .runChanged
  else if !(allowedOutcomes value.status).contains outcome then .error .invalidOutcome
  else do
    let (state, _) ← runNotice state value outcome now detail entropy
    withoutRun state runId now

end

section

open Library

/-- The transitions of a Team's Routine state with their arguments. -/
inductive Action where
  | create (value : Routine) (now : Int) (usage : Option Value) (steps : List Value)
  | update (value : Routine) (expectedRevision now : Int)
  | refine (value : Routine) (expectedRevision now : Int)
  | setPaused (routineId : String) (paused : Bool)
  | beginDelete (routineId : String)
  | completeDelete (routineId : String) (now : Int)
  | markScopeChanged (routineId : String) (now : Int)
  | sweep (now : Int)
  | claim (now : Int) (keyFingerprint : String) (long : Bool)
  | bindGeneration (runId : String) (lease : Lease) (now : Int) (networkId : String)
  | spend (runId : String) (lease : Lease) (now : Int) (elapsed : Int × Int)
  | loseProtection (runId : String)
  | freeze (runId : String) (lease : Lease) (now : Int) (request : Request)
  | thaw (runId : String) (now requestsUsed : Int)
  | finish (runId : String) (lease : Lease) (now : Int) (shown : Option Value)
  | endRun (runId : String) (now : Int) (outcome : String) (detail : Value)
      (status : Option RunStatus)
  | completeRecovered (runId leaseSha256 : String) (now : Int) (shown : Option Value)
  | fence (runId : String) (lease : Lease) (now : Int)
  | holdRecovered (runId leaseSha256 : String)
  | settleHold (runId : String) (now : Int) (step : HeldStep)
  | spendIncident (incidentId : String) (seconds : Int)
  | reopenIncident (incidentId : String) (now : Int) (generation : String)
  | skipIncident (incidentId : String) (now : Int) (expected : Option Expected)
  | runIncident (incidentId : String) (now : Int) (expected : Expected)
  | pauseIncident (incidentId : String) (now : Int) (reason : PauseReason)
  | releaseIncident (incidentId : String)
  | acknowledge (delivered : List (String × Int))
  | discarded (runId generation : String)

/-- One call: a transition and what the random source gives it. -/
structure Call where
  action : Action
  entropy : Entropy

namespace Call

/-- The instant a call is made at, when it reads the clock. -/
def now (call : Call) : Option Int :=
  match call.action with
  | .create _ now _ _ => some now
  | .update _ _ now => some now
  | .refine _ _ now => some now
  | .completeDelete _ now => some now
  | .markScopeChanged _ now => some now
  | .sweep now => some now
  | .claim now _ _ => some now
  | .bindGeneration _ _ now _ => some now
  | .spend _ _ now _ => some now
  | .freeze _ _ now _ => some now
  | .thaw _ now _ => some now
  | .finish _ _ now _ => some now
  | .endRun _ now _ _ _ => some now
  | .completeRecovered _ _ now _ => some now
  | .fence _ _ now => some now
  | .settleHold _ now _ => some now
  | .reopenIncident _ now _ => some now
  | .skipIncident _ now _ => some now
  | .runIncident _ now _ => some now
  | .pauseIncident _ now _ => some now
  | _ => none

def claimedAt (call : Call) : Option Int :=
  match call.action with
  | .claim now _ _ => some now
  | _ => none

def mintedId (call : Call) : Option String := call.entropy.id.map fun bytes => hex bytes.toList

def mintedToken (call : Call) : Option String :=
  call.entropy.token.map fun bytes => String.ofList (base64 bytes.toList)

def reopens (call : Call) : Option (String × String) :=
  match call.action with
  | .reopenIncident incidentId _ generation => some (incidentId, generation)
  | _ => none

def binds (call : Call) : Option (String × Lease × Int) :=
  match call.action with
  | .bindGeneration runId lease now _ => some (runId, lease, now)
  | _ => none

def presents (call : Call) : Option (String × Lease × Int) :=
  match call.action with
  | .bindGeneration runId lease now _ => some (runId, lease, now)
  | .spend runId lease now _ => some (runId, lease, now)
  | .freeze runId lease now _ => some (runId, lease, now)
  | .finish runId lease now _ => some (runId, lease, now)
  | .fence runId lease now => some (runId, lease, now)
  | _ => none

end Call

variable [Platform]

/-- What a call returns in a state, with whatever else the transition returns left out. -/
def apply (state : TeamRoutines) (call : Call) : Transition TeamRoutines :=
  match call.action with
  | .create value now usage steps => create state value now usage steps call.entropy
  | .update value expectedRevision now => update state value expectedRevision now call.entropy
  | .refine value expectedRevision now => refine state value expectedRevision now call.entropy
  | .setPaused routineId paused => setPaused state routineId paused
  | .beginDelete routineId => (beginDelete state routineId).map Prod.fst
  | .completeDelete routineId now => completeDelete state routineId now call.entropy
  | .markScopeChanged routineId now => markScopeChanged state routineId now call.entropy
  | .sweep now => sweep state now
  | .claim now keyFingerprint long =>
    (claim state now keyFingerprint long call.entropy).map Prod.fst
  | .bindGeneration runId lease now networkId => bindGeneration state runId lease now networkId
  | .spend runId lease now elapsed => spend state runId lease now elapsed
  | .loseProtection runId => loseProtection state runId
  | .freeze runId lease now request => freeze state runId lease now request call.entropy
  | .thaw runId now requestsUsed => (thaw state runId now requestsUsed call.entropy).map Prod.fst
  | .finish runId lease now shown => finish state runId lease now shown call.entropy
  | .endRun runId now outcome detail status =>
    endRun state runId now outcome detail status call.entropy
  | .completeRecovered runId leaseSha256 now shown =>
    completeRecovered state runId leaseSha256 now shown call.entropy
  | .fence runId lease now => fence state runId lease now
  | .holdRecovered runId leaseSha256 => holdRecovered state runId leaseSha256
  | .settleHold runId now step => settleHold state runId now step call.entropy
  | .spendIncident incidentId seconds => spendIncident state incidentId seconds
  | .reopenIncident incidentId now generation =>
    (reopenIncident state incidentId now generation call.entropy).map Prod.fst
  | .skipIncident incidentId now expected =>
    skipIncident state incidentId now expected call.entropy
  | .runIncident incidentId now expected => runIncident state incidentId now expected call.entropy
  | .pauseIncident incidentId now reason => pauseIncident state incidentId now reason call.entropy
  | .releaseIncident incidentId => releaseIncident state incidentId
  | .acknowledge delivered => .ok (acknowledge state delivered)
  | .discarded runId generation => .ok (discarded state runId generation)

def after (calls : List Call) : TeamRoutines := runFrom apply {} calls

end

open Library

variable [Platform] {state next : TeamRoutines} {entropy : Entropy} {now : Int}
variable {routineId runId : String} {value : Run}

variable {incidentId : String}

section

omit [Platform]

theorem found_eq_ok {α refusal value} {result : α} : found refusal value = .ok result ↔ value = some result := by
  cases value <;> simp [found]

theorem routine_eq_ok {value} : routine state routineId = .ok value ↔
      state.routines.find? (fun item => item.routineId == routineId) = some value :=
  found_eq_ok

theorem run_eq_ok : run state runId = .ok value ↔ state.runs.find? (fun item => item.runId == runId) = some value :=
  found_eq_ok

theorem routine_mem {value} (h : routine state routineId = .ok value) :
    value ∈ state.routines ∧ value.routineId = routineId :=
  find?_key_mem (routine_eq_ok.mp h)

theorem routine_self {value} (h : routine state routineId = .ok value) :
    routine state value.routineId = .ok value := (routine_mem h).2.symm ▸ h

theorem routine_of_mem {value} (h : value ∈ state.routines) :
    ∃ current, routine state value.routineId = .ok current := by
  cases hfind : state.routines.find? fun item => item.routineId == value.routineId with
  | none => exact absurd rfl (find?_key_eq_none hfind h)
  | some current => exact ⟨current, routine_eq_ok.mpr hfind⟩

theorem run_mem (h : run state runId = .ok value) : value ∈ state.runs ∧ value.runId = runId :=
  find?_key_mem (run_eq_ok.mp h)

theorem newId_eq_ok {id} : newId entropy = .ok id ↔ ∃ bytes, entropy.id = some bytes ∧ hex bytes.toList = id := by
  unfold newId
  cases entropy.id <;> simp

theorem newToken_eq_ok {token} : newToken entropy = .ok token ↔
      ∃ bytes, entropy.token = some bytes ∧ String.ofList (base64 bytes.toList) = token := by
  unfold newToken
  cases entropy.token <;> simp

theorem incident_eq_ok : incident state incidentId = .ok value ↔
      (incidents state).find? (fun item => item.runId == incidentId) = some value :=
  found_eq_ok

theorem leased_eq_ok : leased state runId = .ok value ↔ run state runId = .ok value ∧ value.status = .leased := by
  simp only [leased, bind_eq_ok, guard_eq_ok, bne_iff_ne, ne_eq, not_not, Except.ok.injEq]
  constructor
  · rintro ⟨found, hrun, hstatus, rfl⟩
    exact ⟨hrun, hstatus⟩
  · rintro ⟨hrun, hstatus⟩
    exact ⟨value, hrun, hstatus, rfl⟩

structure Drives (value : Run) (lease : Lease) (now : Int) : Prop where
  status : value.status = .leased
  digest : value.leaseSha256 = lease.sha256
  key : value.leaseKey = lease.key
  unexpired : now < value.leaseExpiresAt
  active : 0 < value.activeSecondsLeft

theorem requireLease_eq_ok {lease done} : requireLease value lease now = .ok done ↔ Drives value lease now := by
  simp only [requireLease, guard_eq_ok, Bool.or_eq_true, bne_iff_ne, ne_eq, decide_eq_true_eq,
    not_or, not_not, not_le, and_true]
  constructor
  · rintro ⟨⟨⟨⟨hstatus, hdigest⟩, hkey⟩, hexpiry⟩, hactive⟩
    exact ⟨hstatus, hdigest, hkey, hexpiry, hactive⟩
  · rintro ⟨hstatus, hdigest, hkey, hexpiry, hactive⟩
    exact ⟨⟨⟨⟨hstatus, hdigest⟩, hkey⟩, hexpiry⟩, hactive⟩

theorem liveLease_eq_ok {lease} :
    liveLease state runId lease now = .ok value ↔ run state runId = .ok value ∧ Drives value lease now := by
  simp only [liveLease, bind_eq_ok, leased_eq_ok, requireLease_eq_ok, Except.ok.injEq]
  constructor
  · rintro ⟨found, ⟨hrun, hstatus⟩, _, hdrives, rfl⟩
    exact ⟨hrun, hdrives⟩
  · rintro ⟨hrun, hdrives⟩
    exact ⟨value, ⟨hrun, hdrives.status⟩, (), hdrives, rfl⟩

theorem readLease_eq_ok {leaseSha256} : readLease state runId leaseSha256 = .ok value ↔
      run state runId = .ok value ∧ value.status = .leased ∧ value.leaseSha256 = leaseSha256 := by
  simp only [readLease, bind_eq_ok, leased_eq_ok, guard_eq_ok, bne_iff_ne, ne_eq, not_not, Except.ok.injEq]
  constructor
  · rintro ⟨found, ⟨hrun, hstatus⟩, hdigest, rfl⟩
    exact ⟨hrun, hstatus, hdigest⟩
  · rintro ⟨hrun, hstatus, hdigest⟩
    exact ⟨value, ⟨hrun, hstatus⟩, hdigest, rfl⟩

theorem unresolvedIncident_eq_ok : unresolvedIncident state incidentId = .ok value ↔
      incident state incidentId = .ok value ∧ value.status = .unresolved := by
  simp only [unresolvedIncident, bind_eq_ok, guard_eq_ok, bne_iff_ne, ne_eq, not_not, Except.ok.injEq]
  constructor
  · rintro ⟨found, hrun, hstatus, rfl⟩
    exact ⟨hrun, hstatus⟩
  · rintro ⟨hrun, hstatus⟩
    exact ⟨value, hrun, hstatus, rfl⟩

end

variable {current : Routine}

section

omit [Platform]

@[simp]
theorem replaceRoutine_runs (value) : (replaceRoutine state value).runs = state.runs := rfl

@[simp]
theorem replaceRoutine_discards (value) : (replaceRoutine state value).discards = state.discards := rfl

@[simp]
theorem replaceRoutine_starts (value) : (replaceRoutine state value).starts = state.starts := rfl

@[simp]
theorem replaceRoutine_servedAt (value) : (replaceRoutine state value).servedAt = state.servedAt := rfl

@[simp]
theorem replaceRoutine_ids (value) :
    (replaceRoutine state value).routines.map Routine.routineId = state.routines.map Routine.routineId :=
  map_key_replaceFirst

theorem replaceRoutine_routines (value) :
    (replaceRoutine state value).routines = replaceFirst Routine.routineId value state.routines := rfl

@[simp]
theorem replaceRun_routines (value) : (replaceRun state value).routines = state.routines := rfl

@[simp]
theorem replaceRun_discards (value) : (replaceRun state value).discards = state.discards := rfl

theorem replaceRun_runs (value) : (replaceRun state value).runs = replaceFirst Run.runId value state.runs := rfl

theorem routine_replaceRoutine_self {value updated}
    (h : routine state routineId = .ok value) (hid : updated.routineId = routineId) :
    routine (replaceRoutine state updated) routineId = .ok updated :=
  routine_eq_ok.mpr (find?_replaceFirst_self (routine_eq_ok.mp h) hid)

def publish (state : TeamRoutines) (notice : Notice) : TeamRoutines :=
  { state with
    notices := (state.notices.filter fun item => item.noticeId != notice.noticeId) ++ [notice] }

theorem publish_notices (notice) :
    (publish state notice).notices =
      (state.notices.filter fun item => item.noticeId != notice.noticeId) ++ [notice] := rfl

theorem mem_publish {notice item} : item ∈ (publish state notice).notices ↔
      (item ∈ state.notices ∧ item.noticeId ≠ notice.noticeId) ∨ item = notice := by
  rw [publish_notices, List.mem_append, List.mem_filter, List.mem_singleton, bne_iff_ne]

@[simp]
theorem routine_publish (notice routineId) : routine (publish state notice) routineId = routine state routineId := rfl

/-- The state with one more generation to remove. -/
def queue (state : TeamRoutines) (held : String × String) : TeamRoutines :=
  { state with discards := state.discards ++ [held] }

def dropRun (state : TeamRoutines) (runId : String) : TeamRoutines :=
  { state with runs := state.runs.filter fun item => item.runId != runId }

theorem withoutRun_eq_ok : withoutRun state runId now = .ok next ↔
      ∃ value, run state runId = .ok value ∧ next = ended (dropRun state runId) value now := by
  simp only [withoutRun, bind_eq_ok, Except.ok.injEq]
  constructor
  · rintro ⟨value, hrun, rfl⟩
    exact ⟨value, hrun, rfl⟩
  · rintro ⟨value, hrun, rfl⟩
    exact ⟨value, hrun, rfl⟩

def rebased (now : Int) (value : Routine) : Routine :=
  if continuous value then { value with nextRunAt := max now value.nextRunAt } else value

theorem rebaseContinuous_of_routine {value} (h : routine state routineId = .ok value) :
    rebaseContinuous state routineId now = replaceRoutine state (rebased now value) := by
  have hfind := routine_eq_ok.mp h
  obtain ⟨-, hid⟩ := routine_mem h
  simp only [rebaseContinuous, hfind, rebased]
  by_cases hcontinuous : continuous value = true
  · simp [hcontinuous]
  · simp only [hcontinuous, if_false, replaceRoutine, Bool.false_eq_true]
    rw [replaceFirst_self (hid.symm ▸ hfind)]

theorem ended_of_routine (h : routine state value.routineId = .ok current) :
    ended state value now = replaceRoutine (queue state (value.runId, value.generation)) (rebased now current) :=
  rebaseContinuous_of_routine h

@[simp]
theorem rebased_routineId (value) : (rebased now value).routineId = value.routineId := by
  unfold rebased
  split <;> rfl

@[simp]
theorem rebased_failures (value) : (rebased now value).failures = value.failures := by
  unfold rebased
  split <;> rfl

@[simp]
theorem rebased_paused (value) : (rebased now value).paused = value.paused := by
  unfold rebased
  split <;> rfl

theorem rebaseContinuous_cases (state routineId now) :
    rebaseContinuous state routineId now = state ∨ ∃ value, routine state routineId = .ok value ∧
        rebaseContinuous state routineId now = replaceRoutine state (rebased now value) := by
  cases h : state.routines.find? (fun item => item.routineId == routineId) with
  | none => exact .inl (by simp [rebaseContinuous, h])
  | some value =>
    have hroutine : routine state routineId = .ok value := routine_eq_ok.mpr h
    exact .inr ⟨value, hroutine, rebaseContinuous_of_routine hroutine⟩

@[simp]
theorem ended_runs (value) : (ended state value now).runs = state.runs := by
  rcases rebaseContinuous_cases (queue state (value.runId, value.generation)) value.routineId now
    with h | ⟨_, _, h⟩ <;> exact (congrArg TeamRoutines.runs h :)

@[simp]
theorem ended_notices (value) : (ended state value now).notices = state.notices := by
  rcases rebaseContinuous_cases (queue state (value.runId, value.generation)) value.routineId now
    with h | ⟨_, _, h⟩ <;> exact (congrArg TeamRoutines.notices h :)

@[simp]
theorem ended_starts (value) : (ended state value now).starts = state.starts := by
  rcases rebaseContinuous_cases (queue state (value.runId, value.generation)) value.routineId now
    with h | ⟨_, _, h⟩ <;> exact (congrArg TeamRoutines.starts h :)

@[simp]
theorem ended_servedAt (value) : (ended state value now).servedAt = state.servedAt := by
  rcases rebaseContinuous_cases (queue state (value.runId, value.generation)) value.routineId now
    with h | ⟨_, _, h⟩ <;> exact (congrArg TeamRoutines.servedAt h :)

@[simp]
theorem ended_discards (value) :
    (ended state value now).discards = state.discards ++ [(value.runId, value.generation)] := by
  rcases rebaseContinuous_cases (queue state (value.runId, value.generation)) value.routineId now
    with h | ⟨_, _, h⟩ <;> exact (congrArg TeamRoutines.discards h :)

end

structure Publishable (state : TeamRoutines) (notice : Notice) : Prop where
  detail : exactDetail notice.outcome notice.detail = true
  version : 1 ≤ notice.version
  room : (state.notices.filter fun item => item.noticeId != notice.noticeId).length <
    maxUndeliveredNotices + maxRoutineNotices

omit [Platform] in
def Notice.named (notice : Notice) (current : Routine) : Notice :=
  { notice with name := current.name }

theorem putNotice_eq_ok {notice} (hname : notice.name = "") : putNotice state notice = .ok next ↔
      ∃ current, routine state notice.routineId = .ok current ∧ Publishable state notice ∧
        next = publish state (notice.named current) := by
  have hdetail : ∀ detail, found RoutineStateError.noticeInvalid
      (canonicalNoticeDetail (text notice.outcome) notice.detail) = .ok detail ↔
        exactDetail notice.outcome notice.detail = true ∧ detail = notice.detail := by
    intro detail
    simp only [found_eq_ok, canonicalNoticeDetail, text, string, Option.bind_some]
    by_cases h : exactDetail notice.outcome notice.detail = true <;> simp [h, eq_comm]
  have hempty : "".isEmpty = true := rfl
  simp only [putNotice, bind_eq_ok, hdetail, noticeName, hname, hempty, if_true, map_eq_ok,
    guard_eq_ok, not_lt, not_le, Except.ok.injEq]
  constructor
  · rintro ⟨detail, ⟨hexact, rfl⟩, name, ⟨current, hcurrent, rfl⟩, hversion, hroom, rfl⟩
    exact ⟨current, hcurrent, ⟨hexact, hversion, hroom⟩, rfl⟩
  · rintro ⟨current, hcurrent, ⟨hexact, hversion, hroom⟩, rfl⟩
    exact ⟨notice.detail, ⟨hexact, rfl⟩, current.name, ⟨current, hcurrent, rfl⟩, hversion, hroom, rfl⟩

def outcomeNotice (value : Run) (outcome : String) (now : Int) (detail : Value) : Notice :=
  { noticeId := value.runId, routineId := value.routineId, runId := value.runId,
    outcome := outcome, createdAt := now, detail := detail,
    version := wrap64 (value.noticeVersion + 1), usage := some value.usage,
    protectionLost := value.protectionLost }

def routineNotice (id routineId outcome : String) (now : Int) (detail : Value) : Notice :=
  { noticeId := id, routineId := routineId, runId := "", outcome := outcome, createdAt := now,
    detail := detail }

def streakNotice (id : String) (current : Routine) (now : Int) : Notice :=
  routineNotice id current.routineId "streak-paused" now
    (objectOf [("failures", int current.failures)])

def versioned (value : Run) : Run :=
  { value with noticeVersion := wrap64 (value.noticeVersion + 1) }

omit [Platform] in
@[simp]
theorem streaked_routineId (current outcome) : (streaked current outcome).1.routineId = current.routineId := rfl

/-- What counting an outcome does to a state: nothing, the Routine's streak, or also the notice of
a streak that pauses it. -/
inductive Counted (state : TeamRoutines) (current : Routine) (outcome : String) (now : Int)
    (entropy : Entropy) : TeamRoutines → Prop where
  | uncounted (huncounted : counts outcome = false) :
      Counted state current outcome now entropy state
  | counted (hcounted : counts outcome = true) (hstreak : (streaked current outcome).2 = false) :
      Counted state current outcome now entropy (replaceRoutine state (streaked current outcome).1)
  | paused {id} (hcounted : counts outcome = true)
      (hstreak : (streaked current outcome).2 = true) (hid : newId entropy = .ok id)
      (hput : Publishable (replaceRoutine state (streaked current outcome).1)
        (streakNotice id (streaked current outcome).1 now)) :
      Counted state current outcome now entropy
        (publish (replaceRoutine state (streaked current outcome).1)
          ((streakNotice id (streaked current outcome).1 now).named (streaked current outcome).1))

variable {outcome : String}

theorem counted_of_ok (hroutine : routine state value.routineId = .ok current)
    (h : countStreak state value outcome now entropy = .ok next) : Counted state current outcome now entropy next := by
  have hself := routine_self hroutine
  unfold countStreak at h
  cases hcounts : counts outcome with
  | false =>
    rw [if_neg (by simp [hcounts])] at h
    cases h
    exact .uncounted hcounts
  | true =>
    simp only [hcounts, if_true, bind_eq_ok, hroutine, Except.ok.injEq, exists_eq_left'] at h
    cases hstreak : (streaked current outcome).2 with
    | false =>
      rw [if_neg (by simp [hstreak])] at h
      cases h
      exact .counted hcounts hstreak
    | true =>
      simp only [hstreak, if_true, bind_eq_ok] at h
      obtain ⟨id, hnew, hput⟩ := h
      obtain ⟨named, hnamed, hadmits, rfl⟩ := (putNotice_eq_ok rfl).mp hput
      have hself : routine (replaceRoutine state (streaked current outcome).1)
          (streaked current outcome).1.routineId = .ok (streaked current outcome).1 :=
        routine_replaceRoutine_self hself rfl
      obtain rfl := Except.ok.inj (hnamed.symm.trans hself)
      exact .paused hcounts hstreak hnew hadmits

structure Told (state : TeamRoutines) (value : Run) (outcome : String) (now : Int) (detail : Value)
    (entropy : Entropy) (current : Routine) (next : TeamRoutines) : Prop where
  routine : routine state value.routineId = .ok current
  put : Publishable state (outcomeNotice value outcome now detail)
  counted : Counted (publish state ((outcomeNotice value outcome now detail).named current)) current
    outcome now entropy next

theorem told_of_ok {updated detail} (h : runNotice state value outcome now detail entropy = .ok (next, updated)) :
    updated = versioned value ∧ ∃ current, Told state value outcome now detail entropy current next := by
  simp only [runNotice, bind_eq_ok, Except.ok.injEq, Prod.mk.injEq] at h
  obtain ⟨published, hput, final, hcount, rfl, rfl⟩ := h
  obtain ⟨current, hcurrent, hadmits, rfl⟩ := (putNotice_eq_ok rfl).mp hput
  exact ⟨rfl, current, hcurrent, hadmits, counted_of_ok hcurrent hcount⟩

end ShimpzTeams.Routines
