import ShimpzTeams.Library.Topological
import ShimpzTeams.Routines.Recorder.Provenance
import ShimpzTeams.Library.Refusal

/-!
# Composing a plan from a recording span

The plan calls are the work's source representatives and every source their
inputs read. They are put in data-dependency order with every changing call
where it ran, named by their position, and the plan is replayed on the recorded
results before it is returned. A recording whose send ran Actions ends in a plan
only when its narrowed work composed and sends every chosen target.
-/

namespace ShimpzTeams.Routines.Recorder

open StrictJson Protocol Library

/-- What the person asked a recording to be. -/
structure Request where
  sends : List Send
  protection : Protection
  contracts : Contracts
  /-- The position of the send whose calls are the work. -/
  work : Option Nat
  /-- The question the span last asked. -/
  asked : Option Asked
  /-- The Routine a replacement replaces. -/
  existing : Option Existing

def twins (left right : Occurrence) : Bool :=
  ([left.input, left.result, right.input, right.result].all fun item =>
    item.withheld.isEmpty && !item.oversize) &&
    left.assistant == right.assistant && left.action == right.action &&
    same left.input.value right.input.value && same left.result.value right.result.value

def sourceClassesFrom : List Call → List Call → List (Nat × Nat)
  | _, [] => []
  | opened, call :: rest =>
    -- nothing read before a change is the same source as anything read after it
    if !call.readOnly then (call.index, call.index) :: sourceClassesFrom [] rest
    else
      match opened.find? fun candidate => twins candidate.occurrence call.occurrence with
      | some twin => (call.index, twin.index) :: sourceClassesFrom opened rest
      | none => (call.index, call.index) :: sourceClassesFrom (opened ++ [call]) rest

/-- Each call's source: its earliest read-only twin with no change between. -/
def sourceClasses (calls : List Call) : List (Nat × Nat) := sourceClassesFrom [] calls

/-- The call a copied value's source names before its plan is numbered. -/
def sourceNode (source : Value) : Option Nat :=
  ((source.get "node").bind smallInt).bind fun node => if 0 ≤ node then some node.toNat else none

/-- The calls a call's inputs copy from. -/
def sourceNodes (classified : Classified) : List Nat :=
  classified.1.filterMap fun input => sourceNode input.2

section

variable [Platform] [SpanReader] [SchemaEngine]

/-- The calls still to plan, those already planned left out. -/
def unplanned (nodes : List (Nat × Call)) (pending : List Nat) : List Nat :=
  pending.dropWhile fun node => (OrderedMap.get id node nodes).isSome

/-- The plan calls and their inputs, from some planned so far and some pending, the latest first. Each
call of the span is planned at most once. -/
def closureFrom (context : Context) : Nat → List (Nat × Classified) → List (Nat × Call) → List Nat →
    Except Stop (List (Nat × Classified) × List (Nat × Call))
  | 0, inputs, nodes, pending =>
    if (unplanned nodes pending).isEmpty then .ok (inputs, nodes) else .error (.refuse .unverified)
  | budget + 1, inputs, nodes, pending =>
    match unplanned nodes pending with
    | [] => .ok (inputs, nodes)
    | node :: rest =>
      match context.calls[node]? with
      -- a source names a call of the span
      | none => .error (.refuse .unverified)
      | some call => do
          let found ← classifyCall context call
          closureFrom context budget (OrderedMap.put id node found inputs)
            (OrderedMap.put id node call nodes) ((sourceNodes found).reverse ++ rest)

/-- The plan calls: each work call's source representative, and every source their inputs read. -/
def closure (context : Context) (work : List Call) : Except Stop (List (Nat × Classified) × List (Nat × Call)) :=
  closureFrom context context.calls.length [] []
    (work.map fun call => context.classOf call.index).reverse

def inputsOf (inputs : List (Nat × Classified)) (node : Nat) : Classified :=
  (OrderedMap.get id node inputs).getD ([], [])

def changes (nodes : List (Nat × Call)) (node : Nat) : Bool :=
  (OrderedMap.get id node nodes).any fun call => !call.readOnly

/-- `edges`: a plan call's successors: what reads it, and every call on the far side of a changing
call. -/
def successors (inputs : List (Nat × Classified)) (nodes : List (Nat × Call)) (source : Nat) : List Nat :=
  (nodes.map Prod.fst).filter fun target =>
    (sourceNodes (inputsOf inputs target)).contains source ||
      (decide (source < target) && (changes nodes source || changes nodes target))

def orderState (inputs : List (Nat × Classified)) (nodes : List (Nat × Call)) : Topological.State Nat :=
  let keys := nodes.map Prod.fst
  Topological.orderFrom (successors inputs nodes) keys.length
    (Topological.initial keys (Topological.edgesTo (successors inputs nodes) keys))

/-- The plan calls in data-dependency order, every changing call where it ran; refuses a cycle. -/
def orderedNodes (inputs : List (Nat × Classified)) (nodes : List (Nat × Call)) : Except RecordingError (List Nat) :=
  let order := (orderState inputs nodes).order
  if order.length != nodes.length then
    .error (if nodes.any fun entry => !order.contains entry.1 && !entry.2.readOnly then .conflict else .cyclic)
  else .ok order

def stepName (position : Nat) : String := "s" ++ toString (position + 1)

def nameOf (order : List Nat) (node : Nat) : Option String := (order.idxOf? node).map stepName

def namedSource (order : List Nat) (source : Value) : Value :=
  match sourceNode source with
  | none => source
  | some node =>
    .object (("kind", text "step_output") :: ("step", optionalText (nameOf order node)) ::
      (members source).filter fun member => member.1 != "node")
where
  optionalText (name : Option String) : Value := (name.map text).getD .null

def stepOf (inputs : List (Nat × Classified)) (order : List Nat) (node : Nat) (call : Call) : Value :=
  objectOf [("id", text ((nameOf order node).getD "")), ("assistant", text call.occurrence.assistant),
    ("action", text call.occurrence.action), ("pin", text call.occurrence.pin),
    ("input", .object ((inputsOf inputs node).1.map fun input => (input.1, namedSource order input.2)))]

/-- `document`: the plan document of some steps, in the zone each run reads its dates in. -/
def documentOf (steps : List Value) (last mode timezone : String) : Value :=
  objectOf [("version", int version), ("timezone", text timezone), ("steps", .array steps),
    ("output", objectOf [("mode", text mode), ("step", if shownModes.contains mode then text last else .null)])]

/-- The plan as every run admits it; a refusal keeps the plan's own code. -/
def admitted (document : Value) (contracts : Contracts) : Except RecordingError Plan :=
  (admitPlan document contracts).mapError RecordingError.plan

def replayRefusal (refusal : PlanError) : RecordingError :=
  if refusal = .inputTooLarge then .tooLarge else .unverified

def stepSelections (plan : Plan) (recorded : String → Option Value) (step : Step) :
    Except PlanError (List (Key × Value)) :=
  match recorded step.stepId with
  | none => .ok []
  | some result =>
    (selections plan step.stepId result).map fun chosen =>
      chosen.map fun entry => ((step.stepId, entry.1), entry.2)

def replaySelections (plan : Plan) (recorded : String → Option Value) : Except PlanError (List (Key × Value)) :=
  (plan.steps.mapM (stepSelections plan recorded)).map fun found =>
    OrderedMap.ofEntries keyParts found.flatten

def replayCall (context : Context) (plan : Plan) (selected : List (Key × Value))
    (entry : Call × String) : Except RecordingError Unit :=
  match plan.step entry.2 with
  | none => .ok ()
  | some step => do
      let resolved ← (resolve plan step selected (context.startedAt entry.1) fun _ => true).mapError
        replayRefusal
      if same resolved entry.1.occurrence.input.value then .ok () else .error .unverified

/-- Whether every call resolves, through the plan's selections from the recorded results, to exactly
what it sent. -/
def replayed (context : Context) (plan : Plan) (recorded : String → Option Value)
    (calls : List (Call × String)) : Except RecordingError Unit := do
  let selected ← (replaySelections plan recorded).mapError replayRefusal
  if maxRetainedBytes < retainedBytes selected then .error .tooLarge
  else calls.forM (replayCall context plan selected)

def recordedResult (nodes : List (Nat × Call)) (order : List Nat) (stepId : String) : Option Value :=
  (nodes.find? fun entry => nameOf order entry.1 == some stepId).map fun entry =>
    entry.2.occurrence.result.value

/-- The calls of the span a step stands for, each with its step's id. -/
def plannedCalls (context : Context) (nodes : List (Nat × Call)) (order : List Nat) : List (Call × String) :=
  (context.calls.filter fun call =>
    (OrderedMap.get id (context.classOf call.index) nodes).isSome).map fun call =>
      (call, (nameOf order (context.classOf call.index)).getD "")

/-- Every call a step stands for, replayed through a run's own admission and resolver, sends exactly
what it sent. -/
def verify (context : Context) (nodes : List (Nat × Call)) (order : List Nat) (document : Value) :
    Except RecordingError Unit := do
  let plan ← admitted document context.contracts
  replayed context plan (recordedResult nodes order) (plannedCalls context nodes order)

def refusing {α : Type} (result : Except RecordingError α) : Except Stop α :=
  result.mapError Stop.refuse

def stepsOf (inputs : List (Nat × Classified)) (nodes : List (Nat × Call)) (order : List Nat) : List Value :=
  order.filterMap fun node => (OrderedMap.get id node nodes).map (stepOf inputs order node)

def planDocument (context : Context) (mode : String) (work : List Call) :
    Except Stop (Value × Origins) := do
  if work.isEmpty then .error (.refuse .empty)
  else do
    let planned ← closure context work
    let order ← refusing (orderedNodes planned.1 planned.2)
    let steps := stepsOf planned.1 planned.2 order
    let last := (string (fieldOf (steps.getLast?.getD .null) "id")).getD ""
    let document := documentOf steps last mode context.zone.1
    refusing (verify context planned.2 order document)
    .ok (document, order.map fun node =>
      ((nameOf order node).getD "", (inputsOf planned.1 node).2))

end

section

def settledWith (kept : List Pending) (item : Pending) : List Pending :=
  match kept.findIdx? fun known => known.sameChoice item with
  | some position => kept.set position item
  | none => kept ++ [item]

variable [Platform] [SpanReader]

omit [SpanReader] in
/-- Every target choice the person answered exactly, and any chosen now, the latest one for each
choice. -/
def settled (context : Context) (chosen : List Pending) : List Pending :=
  ((targetChoices context.sends context.asked).filter (fun item => item.chosen.isSome) ++ chosen).foldl
    settledWith []

/-- What a rerun must send for one input member: the chosen target, a date, a fresh value, or this
exact one. -/
def slotInput (context : Context) (call : Call) (chosen : List Pending) (member : String × Value) :
    String × String × Value :=
  match (bindingFor chosen call member.1 member.2).bind Pending.chosen with
  | some target => (member.1, "value", target)
  | none =>
    match originOf context call member.2 none with
    | .clock => (member.1, "clock", .null)
    | .sourced | .unsourced => (member.1, "fresh", member.2)
    | _ => (member.1, "value", member.2)

/-- One call of the work as a rerun must repeat it. -/
def slotOf (context : Context) (chosen : List Pending) (call : Call) : Slot :=
  let inputs := ((members call.occurrence.input.value).insertionSort fun left right =>
    left.1 ≤ right.1).map (slotInput context call chosen)
  { action := call.action
    inputs
    sources := (inputs.filter fun input => input.2.1 == "fresh").filterMap fun input => do
      let first ← (holders context call input.2.2).head?
      let source ← context.calls[first.1]?
      some (input.1, source.action) }

/-- The slots of some calls, after those of some sources. -/
def manifestFrom (context : Context) (chosen : List Pending) :
    List Nat → List Call → Except RecordingError (List Slot)
  | _, [] => .ok []
  | seen, call :: rest =>
    if call.occurrence.input.oversize then .error .tooLarge
    else if !call.occurrence.input.withheld.isEmpty || !isObject call.occurrence.input.value then
      .error .secretLiteral
    else if seen.contains (context.classOf call.index) then manifestFrom context chosen seen rest
    else (manifestFrom context chosen (context.classOf call.index :: seen) rest).map fun later =>
      slotOf context chosen call :: later

/-- A question as Team keeps it: with the work it asks to repeat, and every choice already answered. -/
def askedQuestion (context : Context) (work : List Call) (question : Question) : Except RecordingError Question :=
  -- an answered choice moves from the open question to those that stay bound
  let answered := question.pending.filter fun pending => pending.chosen.isSome
  let chosen := settled context answered.toList
  let question := { question with
    pending := if answered.isSome then none else question.pending
    chosen }
  if question.manifest.isNone && question.code = .rerun then
    (manifestFrom context chosen [] work).map fun slots => { question with manifest := some slots }
  else .ok question

/-- The send count when the span first asked for a repair. -/
def repairFrom (request : Request) : Option Nat := request.asked.bind Asked.repairFrom

/-- Whether a send after the span asked for a repair ran an Action. -/
def repaired (request : Request) : Bool :=
  (repairFrom request).any fun start =>
    (request.sends.drop start).any fun send => !send.occurrences.isEmpty

/-- The question a span asks, kept with its work and choices; a second repair ends the span instead. -/
def asked (context : Context) (request : Request) (work : List Call) (question : Question) :
    Except RecordingError Recording :=
  if repaired request && question.code = .rerun then .error .recordAgain
  else
    let repair := if question.code = .rerun then (repairFrom request).or (some request.sends.length)
      else repairFrom request
    (askedQuestion context work question).map fun kept => .asked { kept with repairFrom := repair }

end

section

variable [Platform] [SpanReader] [SchemaEngine]

def stepAction (step : Value) : ActionKey :=
  ((string (fieldOf step "assistant")).getD "", (string (fieldOf step "action")).getD "")

/-- Every Action of some steps once, sorted, at its current pin, with its effect and Stored Inputs. -/
def permitted (actions : List ActionKey) (contracts : Contracts) : List Value :=
  (OrderedMap.setOf (fun key : ActionKey => [key.1, key.2]) actions).filterMap fun key =>
    (contracts key.1 key.2).map fun contract =>
      objectOf [("assistant", text key.1), ("action", text key.2), ("pin", text contract.pin),
        ("read_only", .bool contract.readOnly),
        ("stored_inputs", .array ((contract.storedInputs.insertionSort (· ≤ ·)).map text))]

/-- `schedule`: the schedule the latest authored segment stating one states; a replacement keeps its own
when none is stated. -/
def scheduleOf (sends : List Send) (existing : Option Existing) : Except Stop Value :=
  match statedSchedules sends, existing with
  | [one], _ => .ok one
  | [], some existing => .ok existing.schedule
  | _, _ => .error (.ask { code := .scheduleUnstated })

/-- `output`: the output choice the person states; a replacement keeps its mode when none is. -/
def outputOf (sends : List Send) (existing : Option Existing) : Option String :=
  match statedOutputs sends, existing with
  | [one], _ => some one
  | [], some existing => string (fieldOf (fieldOf existing.plan "output") "mode")
  | _, _ => none

/-- How the card names a kept input's origin, as a recording would now. -/
def keptOrigin (source : Value) (known : Known) : String :=
  if string (fieldOf source "kind") == some "literal" then
    if known.names (fieldOf source "value") then "request" else "assistant"
  else if string (fieldOf source "kind") == some "run_clock" then "clock"
  else if (source.get "where").isSome then "selector"
  else "step"

/-- A replacement that ran no Action: the replaced plan's steps exactly, on a new schedule, zone, or
output, admitted again against the exact current contracts. -/
def keptPlan (context : Context) (mode : String) (existing : Existing) : Except Stop Recorded :=
  let steps := elements (fieldOf existing.plan "steps")
  match steps.getLast?.bind fun step => string (fieldOf step "id") with
  | none => .error (.refuse .empty)
  | some last => do
      let document := documentOf steps last mode context.zone.1
      let _ ← refusing (admitted document context.contracts)
      let schedule ← scheduleOf context.sends (some existing)
      .ok { document
            origins := steps.map fun step => ((string (fieldOf step "id")).getD "",
              (members (fieldOf step "input")).map fun input =>
                (input.1, keptOrigin input.2 context.known))
            permitted := permitted (steps.map stepAction) context.contracts
            schedule
            timezoneSource := context.zone.2
            chosen := []
            repairFrom := none }

/-- What a span plans before its settled choices are attached. -/
inductive Planned where
  | kept (plan : Recorded)
  | recorded (document : Value) (origins : Origins) (schedule : Value)

/-- The plan of the work; a replacement that ran no Action keeps its steps. -/
def planWork (context : Context) (request : Request) (mode : String) (work latest : List Call) : Except Stop Planned :=
  match request.existing, latest with
  | some existing, [] => (keptPlan context mode existing).map Planned.kept
  | _, _ => do
      let planned ← planDocument context mode work
      let schedule ← scheduleOf request.sends request.existing
      .ok (.recorded planned.1 planned.2 schedule)

def planSpan (context : Context) (request : Request) (mode : String) (work latest : List Call)
    (unstated : Bool) : Except Stop Planned := do
  let planned ← planWork context request mode work latest
  if unstated then .error (.ask { code := .outputUnstated }) else .ok planned

/-- Whether the work sends every target the person chose wherever it calls the Action that choice is
about. -/
def chosenUsed (context : Context) (work : List Call) : Bool :=
  (targetChoices context.sends context.asked).all fun binding =>
    match binding.chosen with
    | none => true
    | some chosen =>
      let calls := work.filter fun call => call.action == binding.action
      calls.isEmpty || calls.any fun call => sentValue call binding.member == some (jsonText chosen)

/-- `recorded`: the recorded plan, with what the span settled; work that never sends a chosen target
refuses. -/
def recordedPlan (context : Context) (request : Request) (work : List Call) :
    Planned → Except RecordingError Recording
  | .kept plan =>
    .ok (.recorded { plan with chosen := settled context [], repairFrom := repairFrom request })
  | .recorded document origins schedule =>
    if !chosenUsed context work then .error .recordAgain
    else .ok (.recorded
      { document
        origins
        permitted := permitted ((elements (fieldOf document "steps")).map stepAction)
          request.contracts
        schedule
        timezoneSource := context.zone.2
        chosen := settled context []
        repairFrom := repairFrom request })

def spanTexts (sends : List Send) : List String :=
  sends.flatMap fun send => segmentLines send.person ++ send.window

def latestCalls (request : Request) (calls : List Call) : List Call :=
  calls.filter fun call => some call.send == request.work

def workOf (request : Request) (calls : List Call) : List Call :=
  narrowed (targetChoices request.sends request.asked) (latestCalls request calls)

/-- What a recording of some calls reads. Every question about the work, and its rerun, reads the
sources of its calls. -/
def contextOf (request : Request) (calls : List Call) : Context where
  sends := request.sends
  calls := calls
  known := knownTexts (spanTexts request.sends) request.protection
  zone := spanZone request.sends
  asked := request.asked
  contracts := request.contracts
  work := (workOf request calls).map Call.index
  classes := sourceClasses calls

/-- What a span's planning ends in. -/
def concluded (context : Context) (request : Request) (work : List Call) :
    Except Stop Planned → Except RecordingError Recording
  | .ok planned => recordedPlan context request work planned
  | .error (.refuse refusal) => .error refusal
  | .error (.ask question) => asked context request work question

/-- `record` with the output the person stated, `none` when they stated none, or two. -/
def recordStated (request : Request) (stated : Option String) : Except RecordingError Recording :=
  if request.protection.lost then .error .unavailable
  else do
    let calls ← spanCalls request.sends request.contracts
    let context := contextOf request calls
    let work := workOf request calls
    -- the person's output, or show while the work is planned and its own questions come first
    concluded context request work (planSpan context request (stated.getD "show") work
      (latestCalls request calls) stated.isNone)

/-- The plan a recording span defines, or the question to ask first. -/
def record (request : Request) : Except RecordingError Recording :=
  recordStated request (outputOf request.sends request.existing)

end

open List

section

variable {request : Request} {work : List Call} {kept : Recorded}

theorem callsOf_map_index (sends) : (callsOf sends).map Call.index = List.range (callsOf sends).length := by
  simp [callsOf, Function.comp_def, ← List.range_eq_range']

theorem nodup_index (sends) : ((callsOf sends).map Call.index).Nodup := by
  rw [callsOf_map_index]
  exact List.nodup_range

theorem eq_of_index_eq {sends left right} (hleft : left ∈ callsOf sends)
    (hright : right ∈ callsOf sends) (hindex : left.index = right.index) : left = right :=
  List.inj_on_of_nodup_map (nodup_index sends) hleft hright hindex

variable [Platform] [SpanReader] [SchemaEngine]

def Request.calls (request : Request) : List Call := callsOf request.sends

/-- The calls of the send whose work is recorded. -/
def Request.latest (request : Request) : List Call := latestCalls request request.calls

def Request.narrowedWork (request : Request) : List Call := workOf request request.calls

/-- What the recording of a request reads. -/
def Request.context (request : Request) : Context := contextOf request request.calls

/-- The target choices of a request's span, as the person's answers settle them. -/
def Request.choices (request : Request) : List Pending := targetChoices request.sends request.asked

structure RecordedFrom (request : Request) (mode : String) (kept : Recorded) : Prop where
  planned : planDocument request.context mode request.narrowedWork = .ok (kept.document, kept.origins)
  chosenUsed : chosenUsed request.context request.narrowedWork = true

omit [SpanReader] [SchemaEngine] in
theorem recordedPlan_recorded {context document schedule origins}
    (h : recordedPlan context request work (.recorded document origins schedule) =
      .ok (.recorded kept)) : chosenUsed context work = true ∧ kept.document = document ∧ kept.origins = origins := by
  obtain ⟨hused, h⟩ := guard_eq_ok.mp h
  obtain rfl := Recording.recorded.inj (Except.ok.inj h)
  exact ⟨by simpa using hused, rfl, rfl⟩

theorem planWork_recorded {context mode latest planned} (hlatest : latest ≠ []) (h : planWork context request mode work latest = .ok planned) :
    ∃ document origins schedule, planned = .recorded document origins schedule ∧
      planDocument context mode work = .ok (document, origins) := by
  have hcomposed : planWork context request mode work latest = (do
      let planned ← planDocument context mode work
      let schedule ← scheduleOf request.sends request.existing
      .ok (.recorded planned.1 planned.2 schedule)) := by
    cases latest with
    | nil => exact absurd rfl hlatest
    | cons call rest => cases hexisting : request.existing <;> simp only [planWork, hexisting]
  obtain ⟨found, hfound, h⟩ := bind_eq_ok.mp (hcomposed ▸ h)
  obtain ⟨schedule, -, h⟩ := bind_eq_ok.mp h
  exact ⟨found.1, found.2, schedule, (Except.ok.inj h).symm, hfound⟩

omit [SchemaEngine] in
theorem concluded_recorded {context result} (h : concluded context request work result = .ok (.recorded kept)) :
    ∃ planned, result = .ok planned ∧ recordedPlan context request work planned = .ok (.recorded kept) := by
  match result, h with
  | .ok planned, h => exact ⟨planned, rfl, h⟩
  | .error (.ask question), h =>
    obtain ⟨-, h⟩ := guard_eq_ok.mp h
    obtain ⟨asked, -, h⟩ := map_eq_ok.mp h
    cases h

/-- Every plan recorded from work comes from its composed document, and the work sends what was
chosen. -/
theorem record_recorded (h : record request = .ok (.recorded kept)) (hwork : request.latest ≠ []) :
    ∃ mode, RecordedFrom request mode kept := by
  obtain ⟨-, h⟩ := guard_eq_ok.mp h
  obtain ⟨calls, hcalls, h⟩ := bind_eq_ok.mp h
  have hspan : request.calls = calls := by
    simp only [spanCalls] at hcalls
    split_ifs at hcalls
    exact Except.ok.inj hcalls
  subst hspan
  obtain ⟨planned, hplanned, h⟩ := concluded_recorded h
  obtain ⟨made, hmade, hplanned⟩ := bind_eq_ok.mp hplanned
  obtain ⟨-, hplanned⟩ := guard_eq_ok.mp hplanned
  cases hplanned
  obtain ⟨document, origins, schedule, rfl, hdocument⟩ := planWork_recorded hwork hmade
  obtain ⟨hused, rfl, rfl⟩ := recordedPlan_recorded h
  exact ⟨_, hdocument, hused⟩

end

variable {node other : Nat} {found : Classified}

section

variable {context : Context} {roots : List Nat} {inputs : List (Nat × Classified)}
  {nodes : List (Nat × Call)} {pending : List Nat}

theorem isSome_get_iff : (OrderedMap.get id node nodes).isSome = true ↔ node ∈ nodes.map Prod.fst :=
  OrderedMap.isSome_get Function.injective_id

theorem mem_planned_put {call} :
    other ∈ (OrderedMap.put id node call nodes).map Prod.fst ↔ other = node ∨ other ∈ nodes.map Prod.fst :=
  OrderedMap.mem_keys_put Function.injective_id

/-- Every pending call is already planned or left to plan. -/
theorem mem_unplanned (h : node ∈ pending) : node ∈ nodes.map Prod.fst ∨ node ∈ unplanned nodes pending := by
  have hmem : node ∈ pending.takeWhile (fun node => (OrderedMap.get id node nodes).isSome) ++
      unplanned nodes pending := by
    rw [unplanned, takeWhile_append_dropWhile]
    exact h
  refine (mem_append.mp hmem).imp (fun htaken => ?_) id
  have hplanned := mem_takeWhile_imp htaken
  exact isSome_get_iff.mp hplanned

theorem unplanned_subset : unplanned nodes pending ⊆ pending := dropWhile_subset _

/-- The first call left to plan is not planned. -/
theorem not_mem_of_unplanned {rest} (h : unplanned nodes pending = node :: rest) : node ∉ nodes.map Prod.fst := by
  intro hmem
  have hfirst := head?_dropWhile_not (fun node => (OrderedMap.get id node nodes).isSome) pending
  rw [show pending.dropWhile _ = node :: rest from h] at hfirst
  exact absurd (isSome_get_iff.mpr hmem) (by simpa using hfirst)

theorem get_put_other {α} {value : α} {entries} (h : other ≠ node) :
    OrderedMap.get id other (OrderedMap.put id node value entries) = OrderedMap.get id other entries :=
  OrderedMap.get_put_of_ne h

theorem inputsOf_put_self : inputsOf (OrderedMap.put id node found inputs) node = found := by
  rw [inputsOf, OrderedMap.get_put_self, Option.getD_some]

theorem inputsOf_put_of_ne (h : other ≠ node) :
    inputsOf (OrderedMap.put id node found inputs) other = inputsOf inputs other := by
  rw [inputsOf, get_put_other h, inputsOf]

variable [Platform] [SpanReader] [SchemaEngine]

/-- What holds while the plan calls are gathered from some roots: each is a call of the span with its
inputs classified, what is needed is planned or pending, and nothing else is. -/
structure Gathered (context : Context) (roots : List Nat) (inputs : List (Nat × Classified))
    (nodes : List (Nat × Call)) (pending : List Nat) : Prop where
  ascending : OrderedMap.Ascending id nodes
  calls : ∀ node call, OrderedMap.get id node nodes = some call → context.calls[node]? = some call
  classified : ∀ node call, OrderedMap.get id node nodes = some call →
    ∃ found, OrderedMap.get id node inputs = some found ∧ classifyCall context call = .ok found
  rooted : ∀ node ∈ roots, node ∈ nodes.map Prod.fst ∨ node ∈ pending
  sources : ∀ node ∈ nodes.map Prod.fst, ∀ source ∈ sourceNodes (inputsOf inputs node),
    source ∈ nodes.map Prod.fst ∨ source ∈ pending
  needed : ∀ node, node ∈ nodes.map Prod.fst ∨ node ∈ pending →
    node ∈ roots ∨ ∃ reader ∈ nodes.map Prod.fst, node ∈ sourceNodes (inputsOf inputs reader)

theorem gathered_roots (context roots) : Gathered context roots [] [] roots.reverse where
  ascending := List.Pairwise.nil
  calls node call h := by cases h
  classified node call h := by cases h
  rooted node hnode := .inr (mem_reverse.mpr hnode)
  sources node hnode := by cases hnode
  needed node hnode := .inl (mem_reverse.mp (hnode.resolve_left not_mem_nil))

theorem Gathered.next (h : Gathered context roots inputs nodes pending) {rest call} (hnext : unplanned nodes pending = node :: rest)
    (hcall : context.calls[node]? = some call) (hfound : classifyCall context call = .ok found) :
    Gathered context roots (OrderedMap.put id node found inputs) (OrderedMap.put id node call nodes)
      ((sourceNodes found).reverse ++ rest) := by
  have hnew : node ∉ nodes.map Prod.fst := not_mem_of_unplanned hnext
  have hne : ∀ other ∈ nodes.map Prod.fst, other ≠ node := fun other hother heq => hnew (heq ▸ hother)
  -- what was pending is the new call, planned, or still pending
  have hpending : ∀ other ∈ pending, other ∈ (OrderedMap.put id node call nodes).map Prod.fst ∨
      other ∈ (sourceNodes found).reverse ++ rest := by
    intro other hother
    rw [mem_planned_put, mem_append]
    rcases mem_unplanned hother with hmem | hmem
    · exact .inl (.inr hmem)
    · rw [hnext, mem_cons] at hmem
      exact hmem.imp .inl .inr
  have hkept : ∀ other, other ∈ nodes.map Prod.fst ∨ other ∈ pending →
      other ∈ (OrderedMap.put id node call nodes).map Prod.fst ∨ other ∈ (sourceNodes found).reverse ++ rest := by
    rintro other (hother | hother)
    · exact .inl (mem_planned_put.mpr (.inr hother))
    · exact hpending other hother
  have hreader : ∀ reader ∈ nodes.map Prod.fst,
      inputsOf (OrderedMap.put id node found inputs) reader = inputsOf inputs reader :=
    fun reader hreader => inputsOf_put_of_ne (hne reader hreader)
  have hnodePending : node ∈ pending := unplanned_subset (hnext ▸ mem_cons_self)
  refine ⟨h.ascending.put, ?_, ?_, ?_, ?_, ?_⟩
  · intro other kept hget
    by_cases hother : other = node
    · subst hother
      rw [OrderedMap.get_put_self] at hget
      exact Option.some.inj hget ▸ hcall
    · rw [get_put_other hother] at hget
      exact h.calls other kept hget
  · intro other kept hget
    by_cases hother : other = node
    · subst hother
      rw [OrderedMap.get_put_self] at hget
      exact ⟨found, OrderedMap.get_put_self, Option.some.inj hget ▸ hfound⟩
    · rw [get_put_other hother] at hget
      rw [get_put_other hother]
      exact h.classified other kept hget
  · intro root hroot
    exact hkept root (h.rooted root hroot)
  · intro other hother source hsource
    rcases mem_planned_put.mp hother with rfl | hother
    · rw [inputsOf_put_self] at hsource
      exact .inr (mem_append_left _ (mem_reverse.mpr hsource))
    · rw [hreader other hother] at hsource
      exact hkept source (h.sources other hother source hsource)
  · intro other hother
    -- the readers so far still read what they read
    have hstill : other ∈ nodes.map Prod.fst ∨ other ∈ pending → other ∈ roots ∨
        ∃ reader ∈ (OrderedMap.put id node call nodes).map Prod.fst,
          other ∈ sourceNodes (inputsOf (OrderedMap.put id node found inputs) reader) := by
      intro hbefore
      refine (h.needed other hbefore).imp id ?_
      rintro ⟨reader, hmem, hsource⟩
      exact ⟨reader, mem_planned_put.mpr (.inr hmem), by rwa [hreader reader hmem]⟩
    rcases hother with hother | hother
    · rcases mem_planned_put.mp hother with rfl | hother
      · exact hstill (.inr hnodePending)
      · exact hstill (.inl hother)
    · rcases mem_append.mp hother with hsource | hrest
      · refine .inr ⟨node, mem_planned_put.mpr (.inl rfl), ?_⟩
        rw [inputsOf_put_self]
        exact mem_reverse.mp hsource
      · exact hstill (.inr (unplanned_subset (hnext ▸ mem_cons_of_mem node hrest)))

theorem Gathered.done (h : Gathered context roots inputs nodes pending)
    (hdone : unplanned nodes pending = []) : Gathered context roots inputs nodes [] := by
  have hplanned : ∀ node, node ∈ nodes.map Prod.fst ∨ node ∈ pending → node ∈ nodes.map Prod.fst := by
    rintro node (hnode | hnode)
    · exact hnode
    · refine (mem_unplanned hnode).resolve_right ?_
      rw [hdone]
      exact not_mem_nil
  refine ⟨h.ascending, h.calls, h.classified, ?_, ?_, ?_⟩
  · intro node hnode
    exact .inl (hplanned node (h.rooted node hnode))
  · intro node hnode source hsource
    exact .inl (hplanned source (h.sources node hnode source hsource))
  · intro node hnode
    exact h.needed node (hnode.imp id fun hnil => by cases hnil)

theorem gathered_closureFrom {planned budget} (h : Gathered context roots inputs nodes pending)
    (hclosure : closureFrom context budget inputs nodes pending = .ok planned) :
    Gathered context roots planned.1 planned.2 [] := by
  induction budget generalizing inputs nodes pending with
  | zero =>
    rw [closureFrom] at hclosure
    split_ifs at hclosure with hdone
    cases hclosure
    exact h.done (isEmpty_iff.mp hdone)
  | succ budget ih =>
    rw [closureFrom] at hclosure
    cases hnext : unplanned nodes pending with
    | nil =>
      rw [hnext] at hclosure
      cases hclosure
      exact h.done hnext
    | cons node rest =>
      simp only [hnext] at hclosure
      cases hcall : context.calls[node]? with
      | none =>
        rw [hcall] at hclosure
        cases hclosure
      | some call =>
        simp only [hcall] at hclosure
        obtain ⟨found, hfound, hclosure⟩ := bind_eq_ok.mp hclosure
        exact ih (h.next hnext hcall hfound) hclosure

/-- The source representatives of some work. -/
def workClasses (context : Context) (work : List Call) : List Nat :=
  work.map fun call => context.classOf call.index

theorem gathered_closure {planned work} (h : closure context work = .ok planned) :
    Gathered context (workClasses context work) planned.1 planned.2 [] :=
  gathered_closureFrom (gathered_roots context (workClasses context work)) h

end

variable {inputs : List (Nat × Classified)} {nodes : List (Nat × Call)} {order : List Nat}

structure Ordered (inputs : List (Nat × Classified)) (nodes : List (Nat × Call)) (order : List Nat) :
    Prop where
  perm : order.Perm (nodes.map Prod.fst)
  nodup : order.Nodup
  sources : ∀ before node after, order = before ++ node :: after →
    ∀ source ∈ nodes.map Prod.fst, node ∈ successors inputs nodes source → source ∈ before

theorem mem_successors {source target} : target ∈ successors inputs nodes source ↔ target ∈ nodes.map Prod.fst ∧
      (source ∈ sourceNodes (inputsOf inputs target) ∨
        (source < target ∧ (changes nodes source = true ∨ changes nodes target = true))) := by
  rw [successors, mem_filter]
  simp

theorem ordering_orderState (hnodes : OrderedMap.Ascending id nodes) :
    Topological.Ordering (nodes.map Prod.fst) (successors inputs nodes) (orderState inputs nodes) ∧
      (orderState inputs nodes).ready = [] ∧
      Topological.Greedy (nodes.map Prod.fst) (successors inputs nodes) (orderState inputs nodes).order := by
  have hsorted : (nodes.map Prod.fst).Pairwise (· < ·) := pairwise_map.mpr hnodes
  have hkeys : (nodes.map Prod.fst).Nodup := hsorted.imp Nat.ne_of_lt
  have hsuccessors : ∀ node, (successors inputs nodes node).Nodup := fun node => hkeys.filter _
  have htargets : ∀ source ∈ nodes.map Prod.fst, successors inputs nodes source ⊆ nodes.map Prod.fst :=
    fun source _ => filter_subset_self _
  have hinitial : Topological.Ordering (nodes.map Prod.fst) (successors inputs nodes)
      (Topological.initial (nodes.map Prod.fst)
        (Topological.edgesTo (successors inputs nodes) (nodes.map Prod.fst))) :=
    Topological.ordering_initial hsorted
  obtain ⟨hordering, hdone, hgreedy⟩ := hinitial.run hkeys hsuccessors htargets _
  refine ⟨hordering, hdone (Nat.le_add_left _ _), hgreedy ?_⟩
  intro before node after hsplit
  simp [Topological.initial] at hsplit

theorem ordered_of_ok (hnodes : OrderedMap.Ascending id nodes)
    (h : orderedNodes inputs nodes = .ok order) : Ordered inputs nodes order := by
  obtain ⟨hlength, h⟩ := guard_eq_ok.mp h
  cases h
  have hordering : Topological.Ordering (nodes.map Prod.fst) (successors inputs nodes)
      (orderState inputs nodes) := (ordering_orderState hnodes).1
  have hsame : (orderState inputs nodes).order.length = (nodes.map Prod.fst).length := by
    simpa using hlength
  exact ⟨hordering.perm hsame, hordering.nodup, hordering.sources⟩

theorem orderedNodes_of_perm (h : (orderState inputs nodes).order.Perm (nodes.map Prod.fst)) :
    orderedNodes inputs nodes = .ok (orderState inputs nodes).order := by
  have hlength := h.length_eq
  rw [length_map] at hlength
  simp [orderedNodes, hlength]

def changingPair : List (Nat × Call) :=
  let kept : Kept := ⟨.null, [], false⟩
  [0, 1].map fun index => (index, ⟨index, 0, ⟨"mail", "send", "", false, kept, kept⟩⟩)

/-- Every edge goes from an earlier step to a later one. -/
theorem Ordered.lt_of_mem_successors (h : Ordered inputs nodes order) {first second : Nat}
    {source target} (hsource : order[first]? = some source)
    (htarget : order[second]? = some target) (hedge : target ∈ successors inputs nodes source) : first < second := by
  have hsplit : order = order.take second ++ target :: order.drop (second + 1) := by
    obtain ⟨hlt, hget⟩ := List.getElem?_eq_some_iff.mp htarget
    rw [← hget, cons_getElem_drop_succ, take_append_drop]
  have hplanned : source ∈ nodes.map Prod.fst := h.perm.mem_iff.mp (mem_of_getElem? hsource)
  have hbefore := h.sources _ _ _ hsplit source hplanned hedge
  obtain ⟨position, hposition⟩ := mem_iff_getElem?.mp hbefore
  rw [getElem?_take] at hposition
  split_ifs at hposition with hlt
  have hfirst : first < order.length := (List.getElem?_eq_some_iff.mp hsource).1
  exact (getElem?_inj hfirst h.nodup).mp (hsource.trans hposition.symm) ▸ hlt

/-- A changing call stands before or after every other step exactly as they ran. -/
theorem Ordered.changing_in_place (h : Ordered inputs nodes order) {first second : Nat}
    {left right} (hleft : order[first]? = some left) (hright : order[second]? = some right)
    (hchanges : changes nodes left = true ∨ changes nodes right = true) : first < second ↔ left < right := by
  have hplannedLeft : left ∈ nodes.map Prod.fst := h.perm.mem_iff.mp (mem_of_getElem? hleft)
  have hplannedRight : right ∈ nodes.map Prod.fst := h.perm.mem_iff.mp (mem_of_getElem? hright)
  constructor
  · intro hlt
    rcases Nat.lt_trichotomy left right with hbefore | hsame | hafter
    · exact hbefore
    · subst hsame
      have hfirst : first < order.length := (List.getElem?_eq_some_iff.mp hleft).1
      exact absurd ((getElem?_inj hfirst h.nodup).mp (hleft.trans hright.symm)) (Nat.ne_of_lt hlt)
    · have hedge : left ∈ successors inputs nodes right :=
        mem_successors.mpr ⟨hplannedLeft, .inr ⟨hafter, hchanges.symm⟩⟩
      exact absurd (h.lt_of_mem_successors hright hleft hedge) (Nat.lt_asymm hlt)
  · intro hlt
    exact h.lt_of_mem_successors hleft hright
      (mem_successors.mpr ⟨hplannedRight, .inr ⟨hlt, hchanges⟩⟩)

variable [Platform] [SpanReader] [SchemaEngine]

/-- The last step stands for a call of the work: every other plan call is read by a later one. -/
theorem Ordered.last_mem {context roots} (h : Ordered inputs nodes order)
    (hgathered : Gathered context roots inputs nodes []) {last}
    (hlast : order.getLast? = some last) : last ∈ roots := by
  rw [getLast?_eq_getElem?] at hlast
  have hplanned : last ∈ nodes.map Prod.fst := h.perm.mem_iff.mp (mem_of_getElem? hlast)
  refine (hgathered.needed last (.inl hplanned)).resolve_right ?_
  rintro ⟨reader, hreader, hsource⟩
  obtain ⟨position, hposition⟩ := mem_iff_getElem?.mp (h.perm.mem_iff.mpr hreader)
  have hlater := h.lt_of_mem_successors hlast hposition (mem_successors.mpr ⟨hreader, .inl hsource⟩)
  have hbound : position < order.length := (List.getElem?_eq_some_iff.mp hposition).1
  omega

end ShimpzTeams.Routines.Recorder
