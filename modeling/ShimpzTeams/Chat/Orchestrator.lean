import ShimpzTeams.Protocol.Json
import ShimpzTeams.Protocol.Value
import ShimpzTeams.Library.Programs
import ShimpzTeams.Library.OrderedMap

/-!
# The loop between Brain suspensions and Assistant Actions

A resume carries every result of a batch in one bounded request, so how many results
fit is known from the turn's context alone. A turn starts or continues, and each
Action suspension is admitted whole before its first side effect. The batch then runs
in order, the Brain resumes with its results, and once the turn's next checkpoint
holds the answer the batch is acknowledged as delivered. What the loop asks are the
questions of a dialogue; a view says what the history of all segments comes to, and
each exchange is allowed or not by the view it is made in.
-/

namespace ShimpzTeams.Chat

open StrictJson Protocol

structure ActionRequest where
  interruptId : String
  assistantId : String
  action : String
  input : Value

/-- The chat agent's one `browser` call: its interrupt and its self-contained objective. -/
structure BrowserRequest where
  interruptId : String
  objective : String

inductive TurnStatus where
  | completed
  | actionRequired
  | browserRequired
  deriving DecidableEq

structure RuntimeTurn where
  status : TurnStatus
  reply : String
  actions : List ActionRequest
  /-- The closed question that ended a completed turn. -/
  clarification : Option Value
  /-- The memory changes a completed turn proposed. -/
  memory : List Value
  /-- The Routine record that ended a completed turn. -/
  routine : Option Value
  /-- The one call a `browser-required` turn suspended on. -/
  browser : Option BrowserRequest

inductive BrainError where
  | stopped
  | deadline
  | unavailable
  | rejected (status : UInt16)
  | protocol

/-- One Action exactly as the private Brain request carries it. -/
structure RuntimeAction where
  id : String
  summary : String
  inputSchema : Value
  /-- Whether the Action declares an authorization capability. -/
  authorization : Bool
  /-- The input properties that carry one Team file id each. -/
  inputFiles : List String
  outputSchema : Value

def RuntimeAction.wire (action : RuntimeAction) : Value :=
  objectOf [("id", text action.id), ("summary", text action.summary),
    ("input_schema", action.inputSchema), ("output_schema", action.outputSchema),
    ("authorization", .bool action.authorization), ("input_files", .array (action.inputFiles.map text))]

/-- One installed Assistant as a turn sees it. -/
structure RuntimeAssistant where
  id : String
  genesis : String
  actions : List RuntimeAction

def RuntimeAssistant.wire (assistant : RuntimeAssistant) : Value :=
  objectOf [("id", text assistant.id), ("genesis", text assistant.genesis),
    ("actions", .array (assistant.actions.map RuntimeAction.wire))]

structure ModelCredential where
  provider : String
  model : String
  apiKey : String

/-- One entry of the committed presentation history a new turn carries. -/
structure ConversationEntry where
  role : String
  text : String
  truncated : Bool

/-- Everything a turn's Brain sees; an absent list withholds the tool that reads it. -/
structure RuntimeContext where
  threadId : String
  teamName : String
  assistants : List RuntimeAssistant
  credential : ModelCredential
  memories : Option (List Value)
  routines : Option (List Value)
  routineQuestion : Option Value
  routineMode : Bool
  routineRerun : Option (List Value)
  routineSchedule : Option Value
  routineOutput : Option String
  routineSettingsAnswer : Bool
  routineSelected : Option Value
  /-- The selected files prepared for this message, each its complete wire attachment. -/
  attachments : List Value
  /-- Whether the chat agent may call the Browser this turn. -/
  browser : Bool

def optionalList (items : Option (List Value)) : Value := items.elim .null .array

def RuntimeContext.body (context : RuntimeContext) : List (String × Value) :=
  [("thread_id", text context.threadId), ("team_name", text context.teamName),
    ("assistants", .array (context.assistants.map RuntimeAssistant.wire)),
    ("memories", optionalList context.memories), ("routines", optionalList context.routines),
    ("routine_question", context.routineQuestion.getD .null), ("routine_mode", .bool context.routineMode),
    ("routine_rerun", optionalList context.routineRerun),
    ("routine_schedule", context.routineSchedule.getD .null),
    ("routine_output", context.routineOutput.elim .null text),
    ("routine_settings_answer", .bool context.routineSettingsAnswer),
    ("routine_selected", context.routineSelected.getD .null),
    ("attachments", .array context.attachments), ("browser_available", .bool context.browser)]

def credentialWire (credential : ModelCredential) : Value :=
  objectOf [("provider", text credential.provider), ("model", text credential.model),
    ("api_key", text credential.apiKey)]

/-- A body with the credential placed first as `provider`. -/
def withCredential (body : Value) (credential : ModelCredential) : Value :=
  match body with
  | .object members =>
    .object (("provider", credentialWire credential) :: members.filter fun member =>
      member.1 != "provider")
  | other => other

/-- The Brain refuses a request body above this many bytes. -/
def maxRequestBytes : Nat := 4 * 1024 * 1024

/-- What one result's key and handle take at most. -/
def resultKeyBytes : Nat := 256 + 4 + "\x7b\"call\":\"c256\",\"result\":\x7d".utf8ByteSize

def maxResultBytes : Nat := 512 * 1024

/-- The JSON a Brain request body is written as: compact, in insertion order. -/
def bodyOptions : Options := ⟨false, false, true⟩

/-- How many results of some bytes each one resume of this turn can carry to the Brain. -/
def resumeCapacity [Platform] (context : RuntimeContext) (resultBytes : Nat) : Nat :=
  let fixed := (dumps (withCredential (.object (context.body ++ [("results", .object [])]))
    context.credential) bodyOptions).utf8ByteSize
  (maxRequestBytes - fixed) / (resultBytes + resultKeyBytes)

/-- The prepared contents a provider reads. -/
def readable : List String := ["text", "image"]

/-- Whether any attachment's text or image content is in the turn. -/
def readsContent (attachments : List Value) : Bool :=
  attachments.any fun item =>
    match item.get "content" with
    | some (.object content) =>
      (((Value.object content).get "type").bind string).any fun kind => readable.contains kind
    | _ => false

/-- The Action a turn may run under an Assistant's id and its own: while attachment content is in the
turn only an authorizing one. Of two of the same ids the later counts. -/
def admittedActions (context : RuntimeContext) (assistantId actionId : String) : Option RuntimeAction :=
  let restricted := readsContent context.attachments
  let entries := context.assistants.flatMap fun assistant =>
    (assistant.actions.filter fun action => !restricted || action.authorization).map fun action =>
      (assistant.id, action)
  (entries.reverse.find? fun entry => entry.1 == assistantId && entry.2.id == actionId).map Prod.snd

def selectedIds (context : RuntimeContext) : List String :=
  context.attachments.filterMap fun item => (item.get "id").bind string

structure ActionFile where
  id : String
  name : String
  mediaType : String
  size : Int
  sha256 : String

def selectedFiles (attachments : List Value) : List ActionFile :=
  attachments.filterMap fun item => do
    let id ← (item.get "id").bind string
    let name ← (item.get "name").bind string
    let mediaType ← (item.get "media_type").bind string
    let size ← (item.get "size").bind fun value =>
      match value with
      | .number (.int size) => some size
      | _ => none
    let sha256 ← (item.get "sha256").bind string
    some ⟨id, name, mediaType, size, sha256⟩

section

open Library

def maxActionRounds : Nat := 8

def maxFileActionsPerTurn : Nat := 2

/-- A refusal a controller adapter raises. -/
structure Refusal where
  status : UInt16
  message : String
  code : String

inductive ActionFailure where
  | notDeclared
  | invalidInput
  | contextChanged
  | blocked
  | humanRequestRequired
  | stopped
  | uncertain
  | failed
  | stateUnavailable
  | dockerUnavailable
  | integrationUnavailable
  | fileUnavailable
  | fileBusy

/-- Why a turn did not reach an outcome. -/
inductive ChatError where
  | stopped
  | orchestration (message : String)
  | brain (error : BrainError)
  | action (failure : ActionFailure)
  | contextChanged
  | refused (refusal : Refusal)

structure InvokedAction where
  assistantId : String
  action : String

structure ChatOutcome where
  reply : String
  actions : List InvokedAction
  clarification : Option Value
  memory : List Value
  routine : Option Value
  /-- The terminal's `browser` field when the turn ran the Browser. -/
  browser : Option Value

/-- The secret-free state needed to continue one Brain suspension. -/
structure ChatContinuation where
  turn : RuntimeTurn
  /-- The interrupts of every delivered round, sorted. -/
  seenInterrupts : List String
  invoked : List InvokedAction
  /-- The round this continuation resumes at. -/
  roundIndex : Nat
  /-- The file-taking Actions the turn admitted before this round. -/
  fileActions : Nat

/-- A whole batch paused before its first side effect. -/
structure ChatSuspension where
  continuation : ChatContinuation
  requests : List ActionRequest

/-- A request paused for a person. -/
structure ChatHumanSuspension where
  continuation : ChatContinuation
  action : ActionRequest
  request : Value
  completedInterrupts : List String

/-- How a segment of a turn ended. -/
inductive Outcome where
  | completed (outcome : ChatOutcome)
  | suspended (suspension : ChatSuspension)
  | human (suspension : ChatHumanSuspension)

/-- The executor's request for one admitted Brain request, with the files its turn selected. -/
structure ExecutorRequest extends ActionRequest where
  files : List ActionFile

inductive InvokeOutcome where
  | completed (result : Value)
  | humanRequest (request : Value)

inductive Question where
  /-- Whether the turn was cancelled. -/
  | cancelled
  /-- Whether the Team is exactly as the segment prepared it. -/
  | validateContext
  | validateAction (assistantId : String) (action : RuntimeAction) (input : Value)
  /-- Whether the admitted batch must pause before it runs. -/
  | pauseBeforeBatch (batch : List ActionRequest)
  | prepare (requests : List ExecutorRequest)
  | invoke (request : ExecutorRequest)
  | delivered (requests : List ExecutorRequest)
  | settleUndelivered
  | start (message : String) (conversation : List ConversationEntry)
  /-- Results by interrupt, and what the Brain receives of them. -/
  | resume (results : List (String × Value)) (shown : Value)
  /-- Whether this turn has a Browser. -/
  | offersBrowser (request : BrowserRequest)
  /-- The Browser task's result and the terminal's `browser` field. -/
  | runBrowser (request : BrowserRequest)
  | browserDelivered (request : BrowserRequest)
  /-- The turn's state after a Brain answer made durable, with the batch whose results the answer holds. -/
  | checkpoint (continuation : ChatContinuation) (undelivered : List ActionRequest)

def Answer : Question → Type
  | .cancelled => Bool
  | .validateContext => Except ChatError Unit
  | .validateAction _ _ _ => Except ChatError Value
  | .pauseBeforeBatch _ => Except ChatError Bool
  | .prepare _ => Except ActionFailure Unit
  | .invoke _ => Except ActionFailure InvokeOutcome
  | .delivered _ => Except ActionFailure Unit
  | .settleUndelivered => Except ActionFailure Unit
  | .start _ _ => Except BrainError RuntimeTurn
  | .resume _ _ => Except BrainError RuntimeTurn
  | .offersBrowser _ => Bool
  | .runBrowser _ => Value × Value
  | .browserDelivered _ => Unit
  | .checkpoint _ _ => Except ChatError Unit

/-- What a controller fixes for all its segments. -/
structure Strategy where
  /-- What the Brain receives of a batch's results. -/
  shownResults : Value → Value
  /-- The turn's own Action round limit. -/
  maxRounds : Nat := maxActionRounds
  /-- Whether the turn keeps each Action it ran. -/
  recordInvoked : Bool := true

abbrev Loop := Dialogue Answer ChatError

def ask (question : Question) : Loop (Answer question) := Dialogue.asking question

/-- A failure after Stop won is the stopped turn itself. -/
def stoppedUnless {α : Type} (result : Except ChatError α) : Loop α :=
  match result with
  | .ok value => .done (.ok value)
  | .error refusal => do
      let cancelled : Bool ← ask .cancelled
      Dialogue.refusing (if cancelled then .stopped else refusal)

def checkStop : Loop Unit := do
  let cancelled : Bool ← ask .cancelled
  if cancelled then Dialogue.refusing .stopped else .done (.ok ())

def validateContext : Loop Unit := do
  let valid : Except ChatError Unit ← ask .validateContext
  Dialogue.returning valid

def declaredBatchFrom (declared : String → String → Option RuntimeAction) (seen : List String) :
    List ActionRequest → Except ChatError (List (ActionRequest × RuntimeAction))
  | [] => .ok []
  | request :: rest =>
    match declared request.assistantId request.action with
    | none => .error (.orchestration "Brain requested an undeclared Action contract")
    | some action =>
      if seen.contains request.interruptId then
        .error (.orchestration "Brain repeated an Action interrupt id")
      else do
        let contracts ← declaredBatchFrom declared (request.interruptId :: seen) rest
        .ok ((request, action) :: contracts)

/-- The declared Action of each request, refusing an empty, oversized, undeclared or repeated one. -/
def declaredBatch (requests : List ActionRequest) (declared : String → String → Option RuntimeAction)
    (capacity : Nat) : Except ChatError (List (ActionRequest × RuntimeAction)) :=
  if requests.isEmpty then .error (.orchestration "Brain suspended without an Action request")
  else if capacity < requests.length then
    .error (.orchestration "Action batch results could exceed the Brain request")
  else declaredBatchFrom declared [] requests

def namesSelected (action : RuntimeAction) (input : Value) (selected : List String) : Bool :=
  match action.inputFiles.head? with
  | none => true
  | some name =>
    match input.get name with
    | some (.string fileId) => selected.contains fileId
    | _ => false

def validatedRequests (selected : List String) :
    List (ActionRequest × RuntimeAction) → Loop (List ActionRequest)
  | [] => .done (.ok [])
  | (request, action) :: rest => do
      let valid : Except ChatError Value ← ask (.validateAction request.assistantId action request.input)
      let input ← Dialogue.returning valid
      if !isObject input then
        Dialogue.refusing (.orchestration "Action validator returned an invalid input contract")
      else if !namesSelected action input selected then
        Dialogue.refusing (.orchestration "Brain named a file this turn did not select")
      else do
        let validated ← validatedRequests selected rest
        .done (.ok (⟨request.interruptId, request.assistantId, action.id, input⟩ :: validated))

/-- Validates a complete suspension before allowing its first side effect. -/
def validateBatch (requests : List ActionRequest) (declared : String → String → Option RuntimeAction)
    (capacity : Nat) (selected : List String) : Loop (List ActionRequest) := do
  let contracts ← Dialogue.returning (declaredBatch requests declared capacity)
  validatedRequests selected contracts

def takesFile (declared : String → String → Option RuntimeAction) (request : ActionRequest) : Bool :=
  (declared request.assistantId request.action).any fun action => !action.inputFiles.isEmpty

/-- Admits a round's whole batch, and the turn's file budget it reserves, before any side effect. -/
def admitBatch [Platform] (turn : RuntimeTurn) (context : RuntimeContext) (seen : List String)
    (fileActions : Nat) : Loop (List ActionRequest × Nat) := do
  let declared := admittedActions context
  let batch ← validateBatch turn.actions declared (resumeCapacity context maxResultBytes)
    (selectedIds context)
  if batch.any fun request => seen.contains request.interruptId then
    Dialogue.refusing (.orchestration "Brain repeated an Action interrupt across rounds")
  else
    let total := fileActions + (batch.filter (takesFile declared)).length
    if maxFileActionsPerTurn < total then
      Dialogue.refusing (.orchestration "Action batch exceeds the turn's file deliveries")
    else .done (.ok (batch, total))

section

variable (strategy : Strategy)

def executorRequest (request : ActionRequest) (files : List ActionFile) : ExecutorRequest :=
  { request with files := files }

/-- What one batch ran, unless a person must answer. -/
inductive Ran where
  | done (results : List (String × Value)) (invoked : List InvokedAction)
  | human (suspension : ChatHumanSuspension)

/-- Runs the rest of one admitted batch in order, some of it having run. -/
def runRequests (files : List ActionFile) (checkpoint : ChatContinuation)
    (results : List (String × Value)) (invoked : List InvokedAction) : List ActionRequest → Loop Ran
  | [] => .done (.ok (.done results invoked))
  | request :: rest => do
      checkStop
      validateContext
      let answered : Except ActionFailure InvokeOutcome ← ask (.invoke (executorRequest request files))
      let outcome ← stoppedUnless (answered.mapError .action)
      checkStop
      match outcome with
      | .humanRequest human => .done (.ok (.human ⟨checkpoint, request, human, results.map Prod.fst⟩))
      | .completed result =>
        runRequests files checkpoint (results ++ [(request.interruptId, result)])
          (if strategy.recordInvoked then invoked ++ [⟨request.assistantId, request.action⟩] else invoked)
          rest

def runBatch (requests : List ActionRequest) (files : List ActionFile) (checkpoint : ChatContinuation) : Loop Ran :=
  runRequests strategy files checkpoint [] [] requests

def resumeBrain (results : List (String × Value)) (shown : Value) : Loop RuntimeTurn := do
  let answered : Except BrainError RuntimeTurn ← ask (.resume results shown)
  stoppedUnless (answered.mapError .brain)

def runBrowser (context : RuntimeContext) (turn : RuntimeTurn) : Loop (RuntimeTurn × Value) :=
  let notOffered := ChatError.orchestration "Brain called the Browser where it was not offered"
  match turn.browser with
  | none => Dialogue.refusing notOffered
  | some request =>
    if !context.browser || !context.attachments.isEmpty then Dialogue.refusing notOffered
    else do
      let offered : Bool ← ask (.offersBrowser request)
      if !offered then Dialogue.refusing notOffered
      else do
        validateContext
        let task : Value × Value ← ask (.runBrowser request)
        checkStop
        validateContext
        let results := [(request.interruptId, task.1)]
        let resumed ← resumeBrain results (.object results)
        if resumed.status != .completed || !resumed.memory.isEmpty || resumed.routine.isSome ||
            resumed.clarification.isSome then
          Dialogue.refusing (.orchestration "Brain did more than reply after a Browser result")
        else .done (.ok (resumed, task.2))

end

variable [Platform] (strategy : Strategy) (context : RuntimeContext)

def executorRequests (requests : List ActionRequest) : List ExecutorRequest :=
  requests.map fun request => executorRequest request (selectedFiles context.attachments)

def complete (turn : RuntimeTurn) (invoked : List InvokedAction) (round : Nat) (browser : Option Value) :
    Loop Outcome := do
  if turn.clarification.isSome && (decide (0 < round) || !invoked.isEmpty) then
    Dialogue.refusing (.orchestration "Brain asked a clarification after Actions ran")
  else do
    validateContext
    .done (.ok (.completed ⟨turn.reply, invoked, turn.clarification, turn.memory, turn.routine, browser⟩))

def admitRound (checkpoint : ChatContinuation) (seen : List String) :
    Loop (List ActionRequest × Nat × Bool) := do
  validateContext
  let admitted ← admitBatch checkpoint.turn context seen checkpoint.fileActions
  let pausing : Except ChatError Bool ← ask (.pauseBeforeBatch admitted.1)
  let pause ← Dialogue.returning pausing
  if pause then .done (.ok (admitted.1, admitted.2, true))
  else do
    let prepared : Except ActionFailure Unit ← ask (.prepare (executorRequests context admitted.1))
    Dialogue.returning (prepared.mapError ChatError.action)
    .done (.ok (admitted.1, admitted.2, false))

def deliver (requests : List ActionRequest) (results : List (String × Value)) (seen : List String) :
    Loop (RuntimeTurn × List String) := do
  validateContext
  let seen := OrderedMap.setOf id (seen ++ requests.map ActionRequest.interruptId)
  let resumed ← resumeBrain results (strategy.shownResults (.object results))
  let repeated := resumed.actions.any fun request => seen.contains request.interruptId
  if resumed.status == .actionRequired && repeated then
    Dialogue.refusing (.orchestration "Brain repeated an Action interrupt across rounds")
  else .done (.ok (resumed, seen))

/-- Makes a state durable. -/
def saveCheckpoint (continuation : ChatContinuation) (undelivered : List ActionRequest) : Loop Unit := do
  let saved : Except ChatError Unit ← ask (.checkpoint continuation undelivered)
  Dialogue.returning saved

/-- The batch's receipts go once the checkpoint after the Brain's answer holds their results. -/
def acknowledge (requests : List ActionRequest) (next : ChatContinuation) : Loop Unit := do
  saveCheckpoint next requests
  let acknowledged : Except ActionFailure Unit ← ask (.delivered (executorRequests context requests))
  Dialogue.returning (acknowledged.mapError ChatError.action)

/-- What a round led to: the Brain's next answer and the batch's effects, or a pause. -/
inductive Rounded where
  | resumed (turn : RuntimeTurn) (invoked : List InvokedAction) (fileActions : Nat)
      (requests : List ActionRequest) (seen : List String)
  | paused (outcome : Outcome)

def runRound (checkpoint : ChatContinuation) (seen : List String) : Loop Rounded := do
  let (requests, fileActions, pause) ← admitRound context checkpoint seen
  if pause then .done (.ok (.paused (.suspended ⟨checkpoint, requests⟩)))
  else do
    let ran ← runBatch strategy requests (selectedFiles context.attachments) checkpoint
    match ran with
    | .human suspension => .done (.ok (.paused (.human suspension)))
    | .done results invoked => do
        let resumed ← deliver strategy requests results seen
        .done (.ok (.resumed resumed.1 invoked fileActions requests resumed.2))

structure Standing where
  turn : RuntimeTurn
  seen : List String
  invoked : List InvokedAction
  fileActions : Nat

def Standing.at (standing : Standing) (round : Nat) : ChatContinuation :=
  ⟨standing.turn, standing.seen, standing.invoked, round, standing.fileActions⟩

/-- Runs the turn's Browser task and resumes the Brain with it: the turn and the terminal's field. -/
def browse (standing : Standing) (round : Nat) : Loop (Standing × Value) := do
  let (resumed, terminal) ← runBrowser context standing.turn
  let moved := { standing with turn := resumed }
  saveCheckpoint (moved.at round) []
  match standing.turn.browser with
  | none => .done (.ok (moved, terminal))
  | some request => do
      let _ : Unit ← ask (.browserDelivered request)
      .done (.ok (moved, terminal))

/-- Runs the Browser where the Brain asked for it: the turn then, and the terminal's field. -/
def browseFirst (standing : Standing) (round : Nat) (browser : Option Value) : Loop (Standing × Option Value) :=
  if standing.turn.status == .browserRequired then do
    let (moved, terminal) ← browse context standing round
    .done (.ok (moved, some terminal))
  else .done (.ok (standing, browser))

def driveRounds : Nat → Nat → Standing → Option Value → Loop Outcome
  | 0, _, _, _ => Dialogue.refusing (.orchestration "Brain did not complete the chat turn")
  | left + 1, round, standing, browser => do
      checkStop
      let (standing, browser) ← browseFirst context standing round browser
      if standing.turn.status == .completed then complete standing.turn standing.invoked round browser
      else if round == strategy.maxRounds then
        Dialogue.refusing (.orchestration "Brain exceeded the Action round limit")
      else do
        let rounded ← runRound strategy context (standing.at round) standing.seen
        match rounded with
        | .paused outcome => .done (.ok outcome)
        | .resumed turn ran fileActions requests seen => do
            let standing := ⟨turn, seen, standing.invoked ++ ran, fileActions⟩
            acknowledge context requests (standing.at (round + 1))
            driveRounds left (round + 1) standing browser

def drive (continuation : ChatContinuation) : Loop Outcome :=
  driveRounds strategy context (strategy.maxRounds + 1 - continuation.roundIndex) continuation.roundIndex
    ⟨continuation.turn, OrderedMap.setOf id continuation.seenInterrupts, continuation.invoked,
      continuation.fileActions⟩ none

def runUntilPause (message : String) (conversation : List ConversationEntry) : Loop Outcome := do
  checkStop
  validateContext
  let answered : Except BrainError RuntimeTurn ← ask (.start message conversation)
  let turn ← stoppedUnless (answered.mapError .brain)
  let continuation : ChatContinuation := ⟨turn, [], [], 0, 0⟩
  saveCheckpoint continuation []
  drive strategy context continuation

/-- Continues a turn at its checkpoint; a batch whose delivery a restart interrupted is ended first. -/
def continueAfterRestart (continuation : ChatContinuation) (undelivered : List ActionRequest) :
    Loop Outcome := do
  if undelivered.isEmpty then drive strategy context continuation
  else do
    let settled : Except ActionFailure Unit ← ask .settleUndelivered
    Dialogue.returning (settled.mapError ChatError.action)
    drive strategy context continuation

end

open Library

inductive Moment where
  | begun (context : RuntimeContext)
  | asked (exchange : Exchange Answer)
  | ended (result : Except ChatError Outcome)

/-- What a history comes to. -/
structure View where
  /-- What the Brain sees in the segment. -/
  context : Option RuntimeContext := none
  /-- The latest checkpoint that was saved, and the batch whose results its answer holds. -/
  saved : Option ChatContinuation := none
  undelivered : List ActionRequest := []
  /-- Every batch whose results a saved checkpoint's answer holds. -/
  deliveredBatches : List (List ActionRequest) := []
  validInputs : List (String × RuntimeAction × Value) := []
  /-- The batch that was prepared since the latest checkpoint. -/
  prepared : List ExecutorRequest := []
  /-- Whether the last moment was a successful context validation. -/
  validated : Bool := false
  /-- The Brain's latest answer. -/
  answer : Option RuntimeTurn := none
  /-- Whether the segment ran the Browser. -/
  browsed : Bool := false
  invoked : List ExecutorRequest := []

/-- Anything but a context validation: what was validated no longer directly precedes. -/
def View.quiet (view : View) : View := { view with validated := false }

/-- A successful context validation. -/
def View.valid (view : View) : View := { view with validated := true }

def View.admitting (view : View) (assistantId : String) (action : RuntimeAction) (input : Value) : View :=
  { view with validated := false, validInputs := (assistantId, action, input) :: view.validInputs }

def View.preparing (view : View) (requests : List ExecutorRequest) : View :=
  { view with validated := false, prepared := requests }

def View.invoking (view : View) (request : ExecutorRequest) : View :=
  { view with validated := false, invoked := request :: view.invoked }

def View.answering (view : View) (turn : RuntimeTurn) : View :=
  { view with validated := false, answer := some turn }

def View.saving (view : View) (continuation : ChatContinuation) (undelivered : List ActionRequest) : View :=
  { view with validated := false
              saved := some continuation
              undelivered := undelivered
              deliveredBatches :=
                if undelivered.isEmpty then view.deliveredBatches
                else undelivered :: view.deliveredBatches
              prepared := [] }

def View.exchanged (view : View) (exchange : Exchange Answer) : View :=
  match exchange with
  | ⟨.validateContext, answer⟩ =>
    match (answer : Except ChatError Unit) with
    | .ok () => view.valid
    | .error _ => view.quiet
  | ⟨.validateAction assistantId action _, answer⟩ =>
    match (answer : Except ChatError Value) with
    | .ok input => view.admitting assistantId action input
    | .error _ => view.quiet
  | ⟨.prepare requests, answer⟩ =>
    match (answer : Except ActionFailure Unit) with
    | .ok () => view.preparing requests
    | .error _ => view.quiet
  | ⟨.invoke request, _⟩ => view.invoking request
  | ⟨.start _ _, answer⟩ | ⟨.resume _ _, answer⟩ =>
    match (answer : Except BrainError RuntimeTurn) with
    | .ok turn => view.answering turn
    | .error _ => view.quiet
  | ⟨.runBrowser _, _⟩ => { view with validated := false, browsed := true }
  | ⟨.checkpoint continuation undelivered, answer⟩ =>
    match (answer : Except ChatError Unit) with
    | .ok () => view.saving continuation undelivered
    | .error _ => view.quiet
  | _ => view.quiet

def View.after (view : View) : Moment → View
  | .begun context =>
    { view with context := some context, validInputs := [], prepared := [], validated := false,
                answer := none, browsed := false }
  | .asked exchange => view.exchanged exchange
  | .ended _ => view.quiet

/-- What a whole history comes to. -/
def viewOf (history : List Moment) : View := history.foldl View.after {}

/-- What a request asks for, its input apart. -/
def ActionRequest.key (request : ActionRequest) : String × String × String :=
  (request.interruptId, request.assistantId, request.action)

def RequestChecked (view : View) (context : RuntimeContext) (request : ActionRequest) : Prop :=
  ∃ action, admittedActions context request.assistantId request.action = some action ∧
    (request.assistantId, action, request.input) ∈ view.validInputs ∧ isObject request.input = true ∧
    ∀ name, action.inputFiles.head? = some name →
      ∃ fileId, request.input.get name = some (.string fileId) ∧ fileId ∈ selectedIds context

variable [Platform] (strategy : Strategy)

structure Checked (view : View) (context : RuntimeContext) (batch : List ExecutorRequest) : Prop where
  nonempty : batch ≠ []
  /-- Its results fit the one Brain request that carries them. -/
  fits : batch.length ≤ resumeCapacity context maxResultBytes
  distinct : (batch.map fun request => request.interruptId).Nodup
  /-- No interrupt is one of a batch that a saved checkpoint delivered. -/
  fresh : ∀ request ∈ batch, ∀ earlier ∈ view.deliveredBatches, ∀ other ∈ earlier,
    request.interruptId ≠ other.interruptId
  requests : ∀ request ∈ batch, RequestChecked view context request.toActionRequest

def fileInterrupts (declared : String → String → Option RuntimeAction) (requests : List ExecutorRequest) :
    List String :=
  ((requests.filter fun request => takesFile declared request.toActionRequest).map fun request =>
    request.interruptId).dedup

/-- An invocation is of the prepared and checked batch of the saved suspension, within the turn's limits,
and directly follows a successful context validation. -/
structure InvokeAllowed (view : View) (request : ExecutorRequest) : Prop where
  validated : view.validated = true
  prepared : request ∈ view.prepared
  checked : ∃ context, view.context = some context ∧ Checked view context view.prepared ∧
    (fileInterrupts (admittedActions context) (request :: view.invoked)).length ≤ maxFileActionsPerTurn
  /-- The batch is the whole of what the saved answer suspended for. -/
  suspended : ∃ continuation, view.saved = some continuation ∧
    continuation.turn.status = .actionRequired ∧
    view.prepared.map (fun request => request.toActionRequest.key) = continuation.turn.actions.map ActionRequest.key
  rounds : view.deliveredBatches.length < strategy.maxRounds
  /-- No Action follows a Browser task. -/
  unbrowsed : view.browsed = false

/-- A Brain resume directly follows a successful context validation, and delivers the prepared and
checked batch's results or the one result of the saved turn's Browser task. -/
structure ResumeAllowed (view : View) (results : List (String × Value)) : Prop where
  validated : view.validated = true
  results : (view.browsed = false ∧ results.map Prod.fst = view.prepared.map (fun request => request.interruptId) ∧
      ∃ context, view.context = some context ∧ Checked view context view.prepared) ∨
    (view.browsed = true ∧ ∃ continuation request result, view.saved = some continuation ∧
      continuation.turn.browser = some request ∧ results = [(request.interruptId, result)])

/-- A checkpoint holds the Brain's latest answer, which after a Browser task only replies. -/
structure CheckpointAllowed (view : View) (continuation : ChatContinuation)
    (undelivered : List ActionRequest) : Prop where
  answered : view.answer = some continuation.turn
  replied : view.browsed = true → undelivered = [] ∧ continuation.turn.status = .completed ∧
    continuation.turn.memory = [] ∧ continuation.turn.routine = none ∧
    continuation.turn.clarification = none

/-- A batch is acknowledged only where the saved checkpoint holds the Brain's answer to its results. -/
structure DeliveryAllowed (view : View) (requests : List ExecutorRequest) : Prop where
  nonempty : view.undelivered ≠ []
  requests : ∃ context, view.context = some context ∧ requests = executorRequests context view.undelivered
  answered : ∃ continuation, view.saved = some continuation ∧ view.answer = some continuation.turn

def View.Allows (view : View) (exchange : Exchange Answer) : Prop :=
  match exchange.question with
  | .invoke request => InvokeAllowed strategy view request
  | .resume results _ => ResumeAllowed view results
  | .checkpoint continuation undelivered => CheckpointAllowed view continuation undelivered
  | .delivered requests => DeliveryAllowed view requests
  | .settleUndelivered => view.undelivered ≠ []
  | _ => True

/-- Whether a moment is: a completion too directly follows a successful context validation. -/
def View.Permits (view : View) : Moment → Prop
  | .asked exchange => view.Allows strategy exchange
  | .ended (.ok (.completed _)) => view.validated = true
  | _ => True

def Lawful (history : List Moment) : Prop :=
  ∀ before moment later, history = before ++ moment :: later → (viewOf before).Permits strategy moment

/-- How the next segment enters a turn: from its start while nothing was saved, from the latest
checkpoint after a restart, or from the pause the previous segment ended in. -/
inductive Entry (context : RuntimeContext) (history : List Moment) : Loop Outcome → Prop
  | start (message : String) (conversation : List ConversationEntry)
      (hunsaved : (viewOf history).saved = none) :
      Entry context history (runUntilPause strategy context message conversation)
  | restart {continuation} (hsaved : (viewOf history).saved = some continuation) :
      Entry context history (continueAfterRestart strategy context continuation (viewOf history).undelivered)
  | suspension {suspension}
      (hended : history.getLast? = some (.ended (.ok (.suspended suspension)))) :
      Entry context history (continueAfterRestart strategy context suspension.continuation [])
  | human {suspension} (hended : history.getLast? = some (.ended (.ok (.human suspension)))) :
      Entry context history (continueAfterRestart strategy context suspension.continuation [])

/-- The histories of one logical turn, whose Team declares the same Actions to every segment. Each
segment may be cut off anywhere. -/
inductive LogicalTurn (declared : String → String → Option RuntimeAction) : List Moment → Prop
  | new : LogicalTurn declared []
  | segment {history context loop exchanges ending}
      (hhistory : LogicalTurn declared history) (hdeclared : admittedActions context = declared)
      (hentry : Entry strategy context history loop) (hrun : loop.Run exchanges ending) :
      LogicalTurn declared
        (history ++ .begun context :: exchanges.map .asked ++ (ending.map .ended).toList)

end ShimpzTeams.Chat
