import ShimpzTeams.Routines.Admission
import ShimpzTeams.Protocol.Canonical

/-!
# The cursor of one Routine run

A cursor binds a run to its plan, its start instant and its current step, and
holds that step's one logical operation, the values later steps selected from
completed ones, and what the run's recovery did. Every transition ends in one
check of the whole cursor. Over a whole run its step only grows, a dispatched step
keeps its operation and input, recovery moves forward, and what was retained stays
retained. It is stored as the canonical text of its document, and read back only as
the canonical text of a valid cursor of exactly the binding asked for.
-/

namespace ShimpzTeams.Routines

open StrictJson Protocol Library

def cursorVersion : Int := 7

def maxCursorBytes : Nat := 256 * 1024

/-- How Team classifies the last failed attempt, empty when it has not failed. -/
def faults : List String := ["", "handled", "transport", "unquiesced", "policy", "other"]

inductive CursorError where
  | planChanged
  | dispatchInvalid
  | operationChanged
  | notDispatched
  | selection (refusal : PlanError)
  | shownInvalid
  | policyHold
  | operationUncertain
  | episodeSpent
  | continued
  | invalid
  | tooLarge
  deriving DecidableEq

structure Binding where
  incarnation : String
  routineId : String
  revision : Int
  runId : String
  deriving DecidableEq

inductive Episode where
  | closed
  | opened
  /-- The run continued; the dispatched operation may be carried from the earlier segment. -/
  | continued (carried : Bool)
  deriving DecidableEq

def Episode.isOpened : Episode → Bool
  | .closed => false
  | _ => true

def Episode.isContinued : Episode → Bool
  | .continued _ => true
  | _ => false

/-- Whether the continuation carries an operation of an earlier segment. -/
def Episode.carried : Episode → Bool
  | .continued carried => carried
  | _ => false

/-- The episode once the carried operation completed. -/
def Episode.delivered : Episode → Episode
  | .continued _ => .continued false
  | episode => episode

structure Cursor where
  binding : Binding
  plan : String
  startedAt : Int
  /-- The current step, by index; the plan's step count once done. -/
  step : Nat
  operationId : Option String
  attempts : Int
  commitment : Option String
  /-- Every value later steps selected from completed ones, in the order it was retained. -/
  selected : List (Key × Value)
  episode : Episode
  /-- Evidence proved that the dispatched operation had no effect. -/
  absent : Bool
  fault : String
  workload : String
  dispatchedAt : Int
  /-- The shown step's bounded result and its comparison digest. -/
  shown : Option Value
  boot : String
  protectionLost : Bool

def Cursor.selections (cursor : Cursor) : List (Key × Value) :=
  OrderedMap.ofEntries keyParts cursor.selected

/-- Whether the run is complete: every step replayed. -/
def Cursor.done (cursor : Cursor) (plan : Plan) : Bool := cursor.step == plan.steps.length

section

variable [Platform]

def optional (value : Option String) : Value := (value.map text).getD .null

/-- The document a store seals. -/
def Cursor.document (cursor : Cursor) : Value :=
  objectOf [("version", int cursorVersion), ("incarnation", text cursor.binding.incarnation),
    ("routine_id", text cursor.binding.routineId), ("revision", int cursor.binding.revision),
    ("run_id", text cursor.binding.runId), ("plan", text cursor.plan),
    ("started_at", int cursor.startedAt), ("step", int cursor.step),
    ("operation_id", optional cursor.operationId), ("attempts", int cursor.attempts),
    ("commitment", optional cursor.commitment),
    ("selected", .array (cursor.selected.map selectionEntry)),
    ("episode", .bool cursor.episode.isOpened), ("continued", .bool cursor.episode.isContinued),
    ("absent", .bool cursor.absent), ("carried", .bool cursor.episode.carried),
    ("fault", text cursor.fault), ("workload", text cursor.workload),
    ("dispatched_at", int cursor.dispatchedAt), ("shown", cursor.shown.getD .null),
    ("boot", text cursor.boot), ("protection_lost", .bool cursor.protectionLost)]

def bindingValid (binding : Binding) : Bool :=
  sha256Re binding.incarnation && routineIdRe binding.routineId &&
    validRevision (int binding.revision) && routineIdRe binding.runId

def operationValid (cursor : Cursor) : Bool :=
  match cursor.operationId, cursor.commitment with
  | some operation, some commitment =>
    operationIdRe operation && 1 ≤ cursor.attempts && sha256Re commitment
  | none, none => cursor.attempts == 0
  | _, _ => false

/-- What the last attempt recorded, which is nothing before a dispatch. -/
def attemptValid (cursor : Cursor) : Bool :=
  (faults.contains cursor.fault && !(cursor.absent && cursor.fault == "policy")) &&
    ((cursor.workload.isEmpty || workloadRe cursor.workload) && 0 ≤ cursor.dispatchedAt) &&
    (cursor.operationId.isSome ||
      (!(cursor.absent || cursor.episode.carried) && cursor.fault.isEmpty &&
        cursor.workload.isEmpty && cursor.dispatchedAt == 0))

def shownValid (shown : Option Value) : Bool :=
  shown.all fun shown =>
    hasFields shown ["step", "output", "digest"] && exactOutput (fieldOf shown "output") &&
      isFullValue routineStepIdRe (fieldOf shown "step") &&
      (let state := string (fieldOf (fieldOf shown "output") "state")
        let digest := fieldOf shown "digest"
        (state == some "shown" || state == some "unavailable") &&
          (isNull digest || isFullValue sha256Re digest) && (isNull digest || state == some "shown"))

/-- One retained key in its closed shape. -/
def keyValid (key : Key) : Bool :=
  routineStepIdRe key.1 && (pointerTokensOf key.2.pointer).isSome &&
    !(key.2.whereText.isEmpty && !key.2.item.isEmpty) && (pointerTokensOf key.2.item).isSome

/-- Keys in their closed shape, each once, and their values within the retained bound. -/
def selectionsValid (selected : List (Key × Value)) (retained : Nat) : Bool :=
  (selected.all fun entry => keyValid entry.1) &&
    decide ((selected.map Prod.fst).Nodup) &&
    decide (retainedBytes (OrderedMap.ofEntries keyParts selected) ≤ retained)

/-- `checked_within`: refuses any cursor outside its closed shape and bounds. -/
def checkedWithin (cursor : Cursor) (retained : Nat) : Except CursorError Cursor :=
  if !(bindingValid cursor.binding && planDigestRe cursor.plan && 0 ≤ cursor.startedAt &&
      cursor.step ≤ maxSteps && operationValid cursor && selectionsValid cursor.selected retained &&
      attemptValid cursor && shownValid cursor.shown && isHexText 32 cursor.boot) then
    .error .invalid
  else if maxCursorBytes < encodedBytes cursor.document then .error .tooLarge
  else .ok cursor

/-- `checked`: refuses any cursor outside its closed shape and bounds. -/
def checked (cursor : Cursor) : Except CursorError Cursor := checkedWithin cursor maxRetainedBytes

end

section

variable [Platform]

/-- `start`: a run's first cursor, at its first step with no recovery opened. -/
def startCursor (plan : Plan) (binding : Binding) (startedAt : Int) (boot : String) : Except CursorError Cursor :=
  checked
    { binding
      plan := plan.digest
      startedAt
      step := 0
      operationId := none
      attempts := 0
      commitment := none
      selected := []
      episode := .closed
      absent := false
      fault := ""
      workload := ""
      dispatchedAt := 0
      shown := none
      boot
      protectionLost := false }

def Cursor.loseProtection (cursor : Cursor) : Except CursorError Cursor :=
  checked { cursor with protectionLost := true }

def samePlan (cursor : Cursor) (plan : Plan) : Except CursorError Unit :=
  if cursor.plan != plan.digest then .error .planChanged else .ok ()

/-- Records one dispatch of the current step before its call: its logical operation and exact input. -/
def dispatch (cursor : Cursor) (plan : Plan) (operationId commitment workload : String)
    (dispatchedAt : Int) : Except CursorError Cursor := do
  samePlan cursor plan
  if cursor.done plan || !operationIdRe operationId || !sha256Re commitment then
    .error .dispatchInvalid
  else if cursor.operationId.isSome &&
      (cursor.operationId, cursor.commitment) != (some operationId, some commitment) then
    .error .operationChanged
  else
    checked { cursor with
      operationId := some operationId
      attempts := cursor.attempts + 1
      commitment := some commitment
      fault := ""
      workload
      dispatchedAt }

/-- Records Team's classification of the dispatched operation's failed attempt. -/
def failed (cursor : Cursor) (fault : String) : Except CursorError Cursor :=
  if cursor.operationId.isNone || !faults.tail.contains fault then .error .notDispatched
  else checked { cursor with fault }

/-- Whether a completing step's shown slot is exactly what the plan admits. -/
def shownMatches (cursor : Cursor) (plan : Plan) (stepId : String) (shown : Option Value) : Bool :=
  let shownHere := plan.shown.any fun step => step.stepId == stepId
  match shown with
  | none => !shownHere
  | some shown =>
    let position := fieldOf (fieldOf shown "output") "step"
    shownHere && isObject shown && string (fieldOf shown "step") == some stepId &&
      isObject (fieldOf shown "output") && position != .null &&
      pyEq position (int (cursor.step + 1))

def Cursor.advanced (cursor : Cursor) (stepId : String) (chosen : List (Selector × Value))
    (shown : Option Value) : Cursor :=
  { cursor with
    selected := cursor.selected ++ chosen.map fun entry => ((stepId, entry.1), entry.2)
    step := cursor.step + 1
    operationId := none
    attempts := 0
    commitment := none
    absent := false
    episode := cursor.episode.delivered
    fault := ""
    workload := ""
    dispatchedAt := 0
    shown }

def complete (cursor : Cursor) (plan : Plan) (result : Value) (shown : Option Value) :
    Except CursorError Cursor := do
  samePlan cursor plan
  if cursor.done plan || cursor.operationId.isNone then .error .notDispatched
  else
    match plan.steps[cursor.step]? with
    -- no run stands past its plan's last step, where indexing the steps would fail
    | none => .error .notDispatched
    | some step => do
        let chosen ← (selections plan step.stepId result).mapError CursorError.selection
        if !shownMatches cursor plan step.stepId shown then .error .shownInvalid
        else checked (cursor.advanced step.stepId chosen shown)

/-- Records proof that the dispatched operation had no effect; a policy fault never has it. -/
def provenAbsent (cursor : Cursor) : Except CursorError Cursor :=
  if cursor.operationId.isNone then .error .notDispatched
  else if cursor.fault == "policy" then .error .policyHold
  else checked { cursor with absent := true }

/-- Permits the retry of the dispatched operation only after proven absence, which it spends. -/
def retry (cursor : Cursor) : Except CursorError Cursor :=
  if cursor.operationId.isNone || !cursor.absent then .error .operationUncertain
  else checked { cursor with absent := false }

/-- Opens the run's one automatic recovery episode. -/
def openEpisode (cursor : Cursor) : Except CursorError Cursor :=
  if cursor.episode.isOpened then .error .episodeSpent
  else checked { cursor with episode := .opened }

def continued (cursor : Cursor) : Except CursorError Cursor :=
  match cursor.episode with
  | .continued _ => .error .continued
  | .closed => .error .invalid
  | .opened => checked { cursor with episode := .continued cursor.operationId.isSome }

inductive CursorTransition where
  | dispatch (operationId commitment workload : String) (dispatchedAt : Int)
  | failed (fault : String)
  | complete (result : Value) (shown : Option Value)
  | provenAbsent
  | retry
  | openEpisode
  | continued
  | loseProtection

def advance (plan : Plan) (cursor : Cursor) : CursorTransition → Except CursorError Cursor
  | .dispatch operationId commitment workload dispatchedAt =>
    dispatch cursor plan operationId commitment workload dispatchedAt
  | .failed fault => failed cursor fault
  | .complete result shown => complete cursor plan result shown
  | .provenAbsent => provenAbsent cursor
  | .retry => retry cursor
  | .openEpisode => openEpisode cursor
  | .continued => continued cursor
  | .loseProtection => cursor.loseProtection

/-- The cursor some transitions lead to, each refused one leaving it as it was. -/
def cursorAfter (plan : Plan) (first : Cursor) (transitions : List CursorTransition) : Cursor :=
  runFrom (advance plan) first transitions

end

section

open List

variable {cursor : Cursor} {transition : CursorTransition}

section

theorem samePlan_ok {before plan done} (h : samePlan before plan = .ok done) : before.plan = plan.digest := by
  obtain ⟨hplan, -⟩ := guard_eq_ok.mp h
  simpa using hplan

variable [Platform]

inductive Advance (plan : Plan) (before : Cursor) : CursorTransition → Cursor → Prop where
  | dispatched {operationId commitment workload dispatchedAt}
      (hplan : before.plan = plan.digest) (hstep : before.step ≠ plan.steps.length)
      (hsame : before.operationId ≠ none →
        before.operationId = some operationId ∧ before.commitment = some commitment) :
      Advance plan before (.dispatch operationId commitment workload dispatchedAt) { before with
          operationId := some operationId, attempts := before.attempts + 1
          commitment := some commitment, fault := "", workload := workload
          dispatchedAt := dispatchedAt }
  | failed {fault} (hoperation : before.operationId ≠ none) :
      Advance plan before (.failed fault) { before with fault := fault }
  | completed {result shown step chosen}
      (hplan : before.plan = plan.digest) (hoperation : before.operationId ≠ none)
      (hstep : plan.steps[before.step]? = some step)
      (hchosen : selections plan step.stepId result = .ok chosen) :
      Advance plan before (.complete result shown) (before.advanced step.stepId chosen shown)
  | provenAbsent (hoperation : before.operationId ≠ none) (hfault : before.fault ≠ "policy") :
      Advance plan before .provenAbsent { before with absent := true }
  | retried (hoperation : before.operationId ≠ none) (habsent : before.absent = true) :
      Advance plan before .retry { before with absent := false }
  | opened (hepisode : before.episode = .closed) :
      Advance plan before .openEpisode { before with episode := .opened }
  | continued (hepisode : before.episode = .opened) :
      Advance plan before .continued
        { before with episode := .continued before.operationId.isSome }
  | unprotected : Advance plan before .loseProtection { before with protectionLost := true }

variable {plan : Plan} {before after : Cursor}

theorem checkedWithin_ok {retained} (h : checkedWithin cursor retained = .ok after) : after = cursor := by
  obtain ⟨-, hsize⟩ := guard_eq_ok.mp h
  obtain ⟨-, hcursor⟩ := guard_eq_ok.mp hsize
  exact (Except.ok.inj hcursor).symm

theorem checked_ok (h : checked cursor = .ok after) : after = cursor ∧ checked after = .ok after := by
  obtain rfl := checkedWithin_ok h
  exact ⟨rfl, h⟩

theorem dispatch_ok {operationId commitment workload dispatchedAt}
    (h : dispatch before plan operationId commitment workload dispatchedAt = .ok after) :
    Advance plan before (.dispatch operationId commitment workload dispatchedAt) after ∧ checked after = .ok after := by
  obtain ⟨done, hplan, hrest⟩ := bind_eq_ok.mp h
  obtain ⟨hvalid, hrest⟩ := guard_eq_ok.mp hrest
  obtain ⟨hsame, hchecked⟩ := guard_eq_ok.mp hrest
  obtain ⟨rfl, hchecked⟩ := checked_ok hchecked
  refine ⟨.dispatched (samePlan_ok hplan) ?_ ?_, hchecked⟩
  · intro hdone
    exact hvalid (by simp [Cursor.done, hdone])
  · intro hoperation
    have hsome : before.operationId.isSome = true := Option.isSome_iff_ne_none.mpr hoperation
    simpa [hsome] using hsame

theorem failed_ok {fault} (h : failed before fault = .ok after) :
    Advance plan before (.failed fault) after ∧ checked after = .ok after := by
  obtain ⟨hrefused, hchecked⟩ := guard_eq_ok.mp h
  obtain ⟨rfl, hchecked⟩ := checked_ok hchecked
  refine ⟨.failed ?_, hchecked⟩
  rw [Bool.or_eq_true, not_or] at hrefused
  simpa using hrefused.1

theorem complete_ok {result shown} (h : complete before plan result shown = .ok after) :
    Advance plan before (.complete result shown) after ∧ checked after = .ok after := by
  obtain ⟨done, hplan, hrest⟩ := bind_eq_ok.mp h
  obtain ⟨hdispatched, hrest⟩ := guard_eq_ok.mp hrest
  rw [Bool.or_eq_true, not_or] at hdispatched
  cases hstep : plan.steps[before.step]? with
  | none =>
    rw [hstep] at hrest
    cases hrest
  | some step =>
    rw [hstep] at hrest
    obtain ⟨chosen, hchosen, hrest⟩ := bind_eq_ok.mp hrest
    obtain ⟨-, hchecked⟩ := guard_eq_ok.mp hrest
    obtain ⟨rfl, hchecked⟩ := checked_ok hchecked
    refine ⟨.completed (samePlan_ok hplan) (by simpa using hdispatched.2) hstep ?_, hchecked⟩
    cases hselections : selections plan step.stepId result with
    | ok found =>
      rw [hselections] at hchosen
      exact congrArg Except.ok (Except.ok.inj hchosen)
    | error refusal =>
      rw [hselections] at hchosen
      cases hchosen

theorem provenAbsent_ok (h : provenAbsent before = .ok after) :
    Advance plan before .provenAbsent after ∧ checked after = .ok after := by
  obtain ⟨hoperation, hrest⟩ := guard_eq_ok.mp h
  obtain ⟨hfault, hchecked⟩ := guard_eq_ok.mp hrest
  obtain ⟨rfl, hchecked⟩ := checked_ok hchecked
  exact ⟨.provenAbsent (by simpa using hoperation) (by simpa using hfault), hchecked⟩

theorem retry_ok (h : retry before = .ok after) : Advance plan before .retry after ∧ checked after = .ok after := by
  obtain ⟨hrefused, hchecked⟩ := guard_eq_ok.mp h
  obtain ⟨rfl, hchecked⟩ := checked_ok hchecked
  rw [Bool.or_eq_true, not_or] at hrefused
  exact ⟨.retried (by simpa using hrefused.1) (by simpa using hrefused.2), hchecked⟩

theorem openEpisode_ok (h : openEpisode before = .ok after) :
    Advance plan before .openEpisode after ∧ checked after = .ok after := by
  obtain ⟨hopened, hchecked⟩ := guard_eq_ok.mp h
  obtain ⟨rfl, hchecked⟩ := checked_ok hchecked
  refine ⟨.opened ?_, hchecked⟩
  cases hepisode : before.episode with
  | closed => rfl
  | opened | continued carried =>
    rw [hepisode] at hopened
    exact absurd rfl hopened

theorem continued_ok (h : continued before = .ok after) :
    Advance plan before .continued after ∧ checked after = .ok after := by
  unfold continued at h
  cases hepisode : before.episode with
  | opened =>
    rw [hepisode] at h
    obtain ⟨rfl, hchecked⟩ := checked_ok h
    exact ⟨.continued hepisode, hchecked⟩
  | closed | continued carried =>
    rw [hepisode] at h
    cases h

/-- What an applied transition did, and that the cursor it leaves passes the check again. -/
theorem advance_ok (h : advance plan before transition = .ok after) :
    Advance plan before transition after ∧ checked after = .ok after := by
  cases transition with
  | dispatch operationId commitment workload dispatchedAt => exact dispatch_ok h
  | failed fault => exact failed_ok h
  | complete result shown => exact complete_ok h
  | provenAbsent => exact provenAbsent_ok h
  | retry => exact retry_ok h
  | openEpisode => exact openEpisode_ok h
  | continued => exact continued_ok h
  | loseProtection =>
    obtain ⟨rfl, hchecked⟩ := checked_ok h
    exact ⟨.unprotected, hchecked⟩

end

section

def Episode.stage : Episode → Nat
  | .closed => 0
  | .opened => 1
  | .continued _ => 2

/-- The selections a run gained between two cursors: each of a step it completed in between. -/
def Gained (plan : Plan) (before after : Cursor) (gained : List (Key × Value)) : Prop :=
  ∀ entry ∈ gained, ∃ index step, before.step ≤ index ∧ index < after.step ∧
    plan.steps[index]? = some step ∧ entry.1.1 = step.stepId

/-- What holds between an earlier and a later cursor of one run. -/
structure Cursor.Follows (plan : Plan) (before after : Cursor) : Prop where
  binding : after.binding = before.binding
  digest : after.plan = before.plan
  startedAt : after.startedAt = before.startedAt
  step : before.step ≤ after.step
  operation : after.step = before.step → before.operationId ≠ none →
    after.operationId = before.operationId ∧ after.commitment = before.commitment ∧ before.attempts ≤ after.attempts
  episode : before.episode.stage ≤ after.episode.stage
  protection : before.protectionLost = true → after.protectionLost = true
  selected : ∃ gained, after.selected = before.selected ++ gained ∧ Gained plan before after gained

variable {plan : Plan} {before middle after first : Cursor}

theorem gained_nil (plan before after) : Gained plan before after [] := by
  intro entry hentry
  cases hentry

theorem Cursor.Follows.refl (plan cursor) : Cursor.Follows plan cursor cursor where
  binding := rfl
  digest := rfl
  startedAt := rfl
  step := le_rfl
  operation _ _ := ⟨rfl, rfl, le_rfl⟩
  episode := le_rfl
  protection := id
  selected := ⟨[], (append_nil _).symm, gained_nil plan cursor cursor⟩

theorem Cursor.Follows.trans (hfirst : Cursor.Follows plan before middle) (hsecond : Cursor.Follows plan middle after) :
    Cursor.Follows plan before after where
  binding := hsecond.binding.trans hfirst.binding
  digest := hsecond.digest.trans hfirst.digest
  startedAt := hsecond.startedAt.trans hfirst.startedAt
  step := hfirst.step.trans hsecond.step
  operation := by
    intro hstep hdispatched
    -- the step stayed the same over both parts, so the operation did too
    have hmiddle : middle.step = before.step := le_antisymm (hstep ▸ hsecond.step) hfirst.step
    obtain ⟨hoperation, hcommitment, hattempts⟩ := hfirst.operation hmiddle hdispatched
    obtain ⟨hlater, hlaterCommitment, hlaterAttempts⟩ :=
      hsecond.operation (hstep.trans hmiddle.symm) (hoperation ▸ hdispatched)
    exact ⟨hlater.trans hoperation, hlaterCommitment.trans hcommitment, hattempts.trans hlaterAttempts⟩
  episode := hfirst.episode.trans hsecond.episode
  protection := hsecond.protection ∘ hfirst.protection
  selected := by
    obtain ⟨gained, hselected, hgained⟩ := hfirst.selected
    obtain ⟨later, hlaterSelected, hlater⟩ := hsecond.selected
    refine ⟨gained ++ later, by rw [hlaterSelected, hselected, append_assoc], ?_⟩
    intro entry hentry
    rcases mem_append.mp hentry with hentry | hentry
    · obtain ⟨index, step, hlow, hhigh, hfound⟩ := hgained entry hentry
      exact ⟨index, step, hlow, hhigh.trans_le hsecond.step, hfound⟩
    · obtain ⟨index, step, hlow, hhigh, hfound⟩ := hlater entry hentry
      exact ⟨index, step, hfirst.step.trans hlow, hhigh, hfound⟩

theorem Episode.stage_delivered (episode : Episode) : episode.delivered.stage = episode.stage := by
  cases episode <;> rfl

variable [Platform]

theorem Advance.follows (h : Advance plan before transition after) : Cursor.Follows plan before after := by
  have hself := Cursor.Follows.refl plan before
  cases h with
  | dispatched hplan hstep hsame =>
    refine { hself with operation := fun _ hdispatched => ?_ }
    obtain ⟨hoperation, hcommitment⟩ := hsame hdispatched
    exact ⟨hoperation.symm, hcommitment.symm, by simp⟩
  | completed hplan hoperation hstep hchosen =>
    refine { hself with step := ?_, operation := ?_, episode := ?_, selected := ?_ }
    · exact Nat.le_succ before.step
    · intro hsame
      exact absurd hsame (Nat.succ_ne_self before.step)
    · exact (Episode.stage_delivered before.episode).ge
    · refine ⟨_, rfl, ?_⟩
      intro entry hentry
      obtain ⟨selection, -, rfl⟩ := mem_map.mp hentry
      exact ⟨before.step, _, le_rfl, Nat.lt_succ_self before.step, hstep, rfl⟩
  | opened hepisode =>
    refine { hself with episode := ?_ }
    rw [hepisode]
    exact Nat.zero_le _
  | continued hepisode =>
    refine { hself with episode := ?_ }
    rw [hepisode]
    exact Nat.le_succ 1
  | unprotected => exact { hself with protection := fun _ => rfl }
  | failed | provenAbsent | retried => exact { hself with }

theorem cursorAfter_append (plan first earlier later) :
    cursorAfter plan first (earlier ++ later) =
      cursorAfter plan (cursorAfter plan first earlier) later := runFrom_append earlier later

theorem cursorAfter_cases (plan cursor transition) : cursorAfter plan cursor [transition] = cursor ∨
      advance plan cursor transition = .ok (cursorAfter plan cursor [transition]) :=
  step_cases (advance plan) cursor transition

theorem cursorAfter_follows (plan cursor transitions) :
    Cursor.Follows plan cursor (cursorAfter plan cursor transitions) := by
  induction transitions using List.reverseRecOn with
  | nil => exact .refl plan cursor
  | append_singleton transitions transition ih =>
    rw [cursorAfter_append]
    refine ih.trans ?_
    rcases cursorAfter_cases plan (cursorAfter plan cursor transitions) transition
      with hrefused | happlied
    · rw [hrefused]
      exact .refl plan _
    · exact (advance_ok happlied).1.follows

structure Moves (plan : Plan) (before : Cursor) (transition : CursorTransition) (after : Cursor) : Prop where
  /-- Only the completion of a dispatched step moves the run, by one step. -/
  step : after.step = before.step ∨
    (after.step = before.step + 1 ∧ before.operationId ≠ none ∧ ∃ result shown, transition = .complete result shown)
  /-- Selections are only gained, and only from the step just completed. -/
  selected : after.selected = before.selected ∨
    ∃ result shown step gained, transition = .complete result shown ∧
      plan.steps[before.step]? = some step ∧ after.step = before.step + 1 ∧
      after.selected = before.selected ++ gained ∧ ∀ entry ∈ gained, entry.1.1 = step.stepId
  /-- Recovery opens once and continues once. -/
  episode : after.episode.stage = before.episode.stage ∨
    (transition = .openEpisode ∧ before.episode = .closed ∧ after.episode = .opened) ∨
    (transition = .continued ∧ before.episode = .opened ∧ after.episode.isContinued = true)
  /-- Only its proof sets an operation's absence. -/
  absent : after.absent = true → before.absent = true ∨ transition = .provenAbsent

omit [Platform] in
theorem Moves.refl (plan cursor transition) : Moves plan cursor transition cursor where
  step := .inl rfl
  selected := .inl rfl
  episode := .inl rfl
  absent := .inl

theorem Advance.moves (h : Advance plan before transition after) : Moves plan before transition after := by
  have hself := Moves.refl plan before transition
  cases h with
  | completed hplan hoperation hstep hchosen =>
    refine { hself with step := ?_, selected := ?_, episode := ?_, absent := ?_ }
    · exact .inr ⟨rfl, hoperation, _, _, rfl⟩
    · refine .inr ⟨_, _, _, _, rfl, hstep, rfl, rfl, ?_⟩
      intro entry hentry
      obtain ⟨selection, -, rfl⟩ := mem_map.mp hentry
      rfl
    · exact .inl (Episode.stage_delivered before.episode)
    · intro habsent
      cases habsent
  | provenAbsent => exact { hself with absent := fun _ => .inr rfl }
  | retried => exact { hself with absent := fun habsent => nomatch habsent }
  | opened hepisode => exact { hself with episode := .inr (.inl ⟨rfl, hepisode, rfl⟩) }
  | continued hepisode => exact { hself with episode := .inr (.inr ⟨rfl, hepisode, rfl⟩) }
  | dispatched | failed | unprotected => exact { hself with }

theorem cursorAfter_moves (plan cursor transition) :
    Moves plan cursor transition (cursorAfter plan cursor [transition]) := by
  rcases cursorAfter_cases plan cursor transition with hrefused | happlied
  · rw [hrefused]
    exact .refl plan cursor transition
  · exact (advance_ok happlied).1.moves

end

section

theorem fault_of_attemptValid (hvalid : attemptValid cursor = true) (habsent : cursor.absent = true) :
    cursor.fault ≠ "policy" := by
  rw [attemptValid, Bool.and_eq_true, Bool.and_eq_true, Bool.and_eq_true] at hvalid
  simpa [habsent] using hvalid.1.1.2

variable [Platform]

variable {plan : Plan} {before after first : Cursor}

theorem attemptValid_of_checked (h : checked cursor = .ok after) : attemptValid cursor = true := by
  obtain ⟨hvalid, -⟩ := guard_eq_ok.mp h
  simp only [Bool.not_eq_true, Bool.not_eq_false', Bool.and_eq_true] at hvalid
  exact hvalid.1.1.2

theorem checked_after {binding startedAt boot} (hstart : startCursor plan binding startedAt boot = .ok first)
    (transitions) : checked (cursorAfter plan first transitions) = .ok (cursorAfter plan first transitions) :=
  run_invariant (fun _ _ _ _ happlied => (advance_ok happlied).2) (checked_ok hstart).2 transitions

/-- Whether an applied transition spends a proof of absence. -/
def spends : Cursor × CursorTransition → Bool
  | (_, .retry) => true
  | _ => false

/-- Whether an applied transition records a proof of absence. -/
def proves : Cursor × CursorTransition → Bool
  | (_, .provenAbsent) => true
  | _ => false

def Cursor.proofs (cursor : Cursor) : Nat := if cursor.absent then 1 else 0

theorem Advance.proofs (h : Advance plan before transition after) :
    [(before, transition)].countP spends + after.proofs ≤ before.proofs + [(before, transition)].countP proves := by
  cases h with
  | retried hoperation habsent => simp [Cursor.proofs, habsent, spends]
  | provenAbsent => simp [Cursor.proofs, proves, spends]
  | dispatched | failed | completed | opened | continued | unprotected =>
    simp [Cursor.proofs, Cursor.advanced, spends]

theorem retries_le (plan cursor transitions) :
    (applied (advance plan) cursor transitions).countP spends + (cursorAfter plan cursor transitions).proofs ≤
      cursor.proofs + (applied (advance plan) cursor transitions).countP proves := by
  induction transitions using List.reverseRecOn with
  | nil => simp [applied, cursorAfter]
  | append_singleton transitions transition ih =>
    rw [cursorAfter_append]
    cases happly : advance plan (cursorAfter plan cursor transitions) transition with
    | error refusal =>
      have hstays : cursorAfter plan (cursorAfter plan cursor transitions) [transition] =
          cursorAfter plan cursor transitions := step_error happly
      rw [applied_snoc_error happly, hstays]
      exact ih
    | ok next =>
      have hnext : cursorAfter plan (cursorAfter plan cursor transitions) [transition] = next := step_ok happly
      have hstep := (advance_ok happly).1.proofs
      rw [applied_snoc_ok happly, hnext, countP_append, countP_append]
      unfold cursorAfter at ih hstep
      omega

/-- A run's cursor is bound to its plan and start for good, moves forward one completed step at a time,
keeps a dispatched step's operation and input, goes through recovery once, never regains protection,
never holds a proof of absence beside a policy fault, spends it in one retry, and keeps what it selected. -/
theorem cursor_history_monotone {binding : Binding} {startedAt : Int} {boot : String}
    (hstart : startCursor plan binding startedAt boot = .ok first) (earlier later : List CursorTransition)
    (transition : CursorTransition) :
    let before := cursorAfter plan first earlier
    let last := cursorAfter plan before later
    Cursor.Follows plan before last ∧
      Moves plan before transition (cursorAfter plan before [transition]) ∧
      (last.binding = binding ∧ last.plan = plan.digest ∧ last.startedAt = startedAt) ∧
      (last.absent = true → last.fault ≠ "policy") ∧
      (∀ next, advance plan before .retry = .ok next → before.absent = true ∧ next.absent = false) ∧
      (applied (advance plan) before later).countP spends ≤
        before.proofs + (applied (advance plan) before later).countP proves := by
  intro before last
  have hlast : last = cursorAfter plan first (earlier ++ later) :=
    (cursorAfter_append plan first earlier later).symm
  obtain ⟨hfirst, -⟩ := checked_ok hstart
  have hfollows : Cursor.Follows plan first last := hlast ▸ cursorAfter_follows plan first (earlier ++ later)
  refine ⟨cursorAfter_follows plan before later, cursorAfter_moves plan before transition, ⟨?_, ?_, ?_⟩, ?_, ?_, ?_⟩
  · rw [hfollows.binding, hfirst]
  · rw [hfollows.digest, hfirst]
  · rw [hfollows.startedAt, hfirst]
  · have hchecked := checked_after hstart (earlier ++ later)
    rw [← hlast] at hchecked
    exact fault_of_attemptValid (attemptValid_of_checked hchecked)
  · intro next hretry
    cases (advance_ok hretry).1 with
    | retried hoperation habsent => exact ⟨habsent, rfl⟩
  · exact le_trans (Nat.le_add_right _ _) (retries_le plan before later)

end

attribute [local instance] utcPlatform

def onePlan : Plan where
  timezone := "UTC"
  steps := [⟨"a", "a", "a", zeroPin, [], .null, .null⟩]
  digest := zeroPin
  output := objectOf [("mode", text "none"), ("step", .null)]

/-- What the sample run's cursor belongs to. -/
def sampleBinding : Binding := ⟨zeros, drawnId 1, 1, drawnId 2⟩

def sampleOperationId : String := "00000000-0000-4000-8000-000000000000"

def retriedRun : List CursorTransition :=
  [.dispatch sampleOperationId zeros "" 5, .failed "transport", .openEpisode, .provenAbsent,
    .continued, .retry, .dispatch sampleOperationId zeros "" 6]

/-- A started run that retries its step and completes it. -/
theorem cursor_history_monotone_retried : ∃ first,
    startCursor onePlan sampleBinding 5 (drawnId 3) = .ok first ∧
      Cursor.Follows onePlan (cursorAfter onePlan first retriedRun)
        (cursorAfter onePlan (cursorAfter onePlan first retriedRun) [.complete .null none]) := by
  obtain ⟨first, hstart⟩ := exists_ok
    (by decide +kernel : (startCursor onePlan sampleBinding 5 (drawnId 3)).isOk = true)
  exact ⟨first, hstart, (cursor_history_monotone hstart retriedRun [.complete .null none] .retry).1⟩

end

open List

section

/-- The members of a cursor document. -/
def cursorFields : List String :=
  ["version", "boot", "protection_lost", "incarnation", "routine_id", "revision", "run_id", "plan",
    "started_at", "step", "operation_id", "attempts", "commitment", "selected", "episode", "continued",
    "absent", "carried", "fault", "workload", "dispatched_at", "shown"]

/-- `Episode::of`: the episode of these persisted flags. -/
def Episode.ofFlags : Bool → Bool → Bool → Option Episode
  | false, false, false => some .closed
  | true, false, false => some .opened
  | true, true, carried => some (.continued carried)
  | _, _, _ => none

/-- A boolean's flag, or `none` for any other value. -/
def flag : Value → Option Bool
  | .bool flag => some flag
  | _ => none

/-- A nullable string: its text or `none`, and nothing for another type. -/
def nullable : Value → Option (Option String)
  | .null => some none
  | .string text => some (some text)
  | _ => none

/-- `selection`: one retained selection. -/
def selectionOf (item : Value) : Option (Key × Value) :=
  match array item with
  | some [step, pointer, whereText, item, value] => do
      let step ← string step
      let pointer ← string pointer
      let whereText ← string whereText
      let item ← string item
      some ((step, ⟨pointer, whereText, item⟩), value)
  | _ => none

def readBinding (value : Value) : Option Binding := do
  let incarnation ← string (fieldOf value "incarnation")
  let routineId ← string (fieldOf value "routine_id")
  let revision ← smallInt (fieldOf value "revision")
  let runId ← string (fieldOf value "run_id")
  some { incarnation, routineId, revision, runId }

def readProgress (value : Value) : Option (String × Int × Nat × List (Key × Value)) := do
  let selected ← array (fieldOf value "selected")
  let plan ← string (fieldOf value "plan")
  let startedAt ← smallInt (fieldOf value "started_at")
  let step ← (smallInt (fieldOf value "step")).filter (0 ≤ ·)
  let selected ← selected.mapM selectionOf
  some (plan, startedAt, step.toNat, selected)

def readOperation (value : Value) : Option (Option String × Int × Option String) := do
  let operationId ← nullable (fieldOf value "operation_id")
  let attempts ← smallInt (fieldOf value "attempts")
  let commitment ← nullable (fieldOf value "commitment")
  some (operationId, attempts, commitment)

def readAttempt (value : Value) : Option (String × String × Int) := do
  let fault ← string (fieldOf value "fault")
  let workload ← string (fieldOf value "workload")
  let dispatchedAt ← smallInt (fieldOf value "dispatched_at")
  some (fault, workload, dispatchedAt)

def readState (value : Value) : Option (Episode × Bool × String × Bool) := do
  let episode ← flag (fieldOf value "episode")
  let continued ← flag (fieldOf value "continued")
  let carried ← flag (fieldOf value "carried")
  let episode ← Episode.ofFlags episode continued carried
  let absent ← flag (fieldOf value "absent")
  let boot ← string (fieldOf value "boot")
  let protectionLost ← flag (fieldOf value "protection_lost")
  some (episode, absent, boot, protectionLost)

/-- `read`: a cursor of the decoded fields' types, or `none` when one has another type. -/
def readCursor (value : Value) : Option Cursor := do
  let (plan, startedAt, step, selected) ← readProgress value
  let (operationId, attempts, commitment) ← readOperation value
  let (fault, workload, dispatchedAt) ← readAttempt value
  let (episode, absent, boot, protectionLost) ← readState value
  let binding ← readBinding value
  let shown := fieldOf value "shown"
  some
    { binding, plan, startedAt, step, operationId, attempts, commitment, selected, episode, absent,
      fault, workload, dispatchedAt, shown := if isNull shown then none else some shown, boot,
      protectionLost }

variable [Platform]

/-- `encode`: the canonical plaintext a store seals. -/
def encode (cursor : Cursor) : Except CursorError ByteArray :=
  (checked cursor).map fun cursor => (canonical cursor.document).toUTF8

def parseBytes (raw : ByteArray) : Option Value := do
  let text ← String.fromUTF8? raw
  (parse text).toOption

/-- `decode`: admits one opened cursor only for exactly the binding its seal was opened under. -/
def decode (raw : ByteArray) (binding : Binding) : Except CursorError Cursor :=
  match parseBytes raw with
  | none => .error .invalid
  | some value =>
    if !hasFields value cursorFields || (value.get "version").bind smallInt != some cursorVersion then
      .error .invalid
    else
      match readCursor value with
      | none => .error .invalid
      | some cursor =>
        if cursor.binding ≠ binding ∨ (canonical cursor.document).toUTF8 ≠ raw then .error .invalid
        else checked cursor

end

section

variable (cursor : Cursor)

/-- A cursor with every held value's members in name order. -/
def Cursor.sorted : Cursor :=
  { cursor with
    selected := cursor.selected.map fun entry => (entry.1, Protocol.sorted entry.2)
    shown := cursor.shown.map Protocol.sorted }

theorem sorted_optional (value) : Protocol.sorted (optional value) = optional value := by
  cases value <;> rfl

theorem nullable_optional (value) : nullable (optional value) = some value := by
  cases value <;> rfl

theorem sorted_selectionEntry (entry) :
    Protocol.sorted (selectionEntry entry) = selectionEntry (entry.1, Protocol.sorted entry.2) := by
  unfold selectionEntry
  rw [sorted_array]
  rfl

theorem Episode.ofFlags_flags (episode) :
    Episode.ofFlags episode.isOpened episode.isContinued episode.carried = some episode := by
  cases episode <;> rfl

theorem sorted_selected (selected : List (Key × Value)) : Protocol.sorted (.array (selected.map selectionEntry)) =
      .array ((selected.map fun entry => (entry.1, Protocol.sorted entry.2)).map selectionEntry) := by
  rw [sorted_array, map_map, map_map]
  exact congrArg Value.array (map_congr_left fun entry _ => sorted_selectionEntry entry)

theorem document_sorted [Platform] : cursor.sorted.document = .object (sortedMembers (members cursor.document)) := by
  have hshown : (cursor.shown.map Protocol.sorted).getD .null = Protocol.sorted (cursor.shown.getD .null) := by
    cases cursor.shown <;> rfl
  simp only [Cursor.document, Cursor.sorted, objectOf, members, sortedMembers, sorted_selected,
    sorted_optional, hshown]
  rfl

theorem canonical_document_sorted [Platform] : canonical cursor.sorted.document = canonical cursor.document := by
  rw [document_sorted, canonical, canonical, dumps, dumps, writeValue_sortedMembers]
  rfl

theorem fieldOf_document [Platform] {name value} (h : cursor.document.get name = some value) :
    fieldOf (Protocol.sorted cursor.document) name = Protocol.sorted value := by
  rw [fieldOf_sorted, fieldOf, h, Option.getD_some]

theorem readBinding_document [Platform] : readBinding (Protocol.sorted cursor.document) = some cursor.binding := by
  unfold readBinding
  iterate 4 rw [fieldOf_document cursor rfl]
  rfl

theorem mapM_selectionOf (selected : List (Key × Value)) :
    (selected.map selectionEntry).mapM selectionOf = some selected := by
  induction selected with
  | nil => rfl
  | cons entry rest ih =>
    rw [map_cons, mapM_cons, ih]
    rfl

theorem readProgress_document [Platform] : readProgress (Protocol.sorted cursor.document) =
      some (cursor.plan, cursor.startedAt, cursor.step, cursor.sorted.selected) := by
  have hstep : (smallInt (Protocol.sorted (int cursor.step))).filter (0 ≤ ·) = some (cursor.step : Int) := by
    rw [smallInt_sorted]
    simp [int, smallInt]
  unfold readProgress
  iterate 4 rw [fieldOf_document cursor rfl]
  rw [sorted_selected, hstep]
  change ((cursor.sorted.selected.map selectionEntry).mapM selectionOf).bind _ = _
  rw [mapM_selectionOf]
  rfl

theorem readOperation_document [Platform] : readOperation (Protocol.sorted cursor.document) =
      some (cursor.operationId, cursor.attempts, cursor.commitment) := by
  unfold readOperation
  iterate 3 rw [fieldOf_document cursor rfl]
  rw [sorted_optional, sorted_optional, nullable_optional, nullable_optional]
  rfl

theorem readAttempt_document [Platform] :
    readAttempt (Protocol.sorted cursor.document) = some (cursor.fault, cursor.workload, cursor.dispatchedAt) := by
  unfold readAttempt
  iterate 3 rw [fieldOf_document cursor rfl]
  rfl

theorem readState_document [Platform] : readState (Protocol.sorted cursor.document) =
      some (cursor.episode, cursor.absent, cursor.boot, cursor.protectionLost) := by
  unfold readState
  iterate 6 rw [fieldOf_document cursor rfl]
  change (Episode.ofFlags cursor.episode.isOpened cursor.episode.isContinued cursor.episode.carried).bind _ = _
  rw [Episode.ofFlags_flags]
  rfl

theorem readCursor_document [Platform] (hshown : ∀ shown ∈ cursor.shown, isNull shown = false) :
    readCursor (Protocol.sorted cursor.document) = some cursor.sorted := by
  unfold readCursor
  rw [readProgress_document, readOperation_document, readAttempt_document, readState_document,
    readBinding_document, fieldOf_document cursor rfl]
  cases hheld : cursor.shown with
  | none => simp [Cursor.sorted, hheld]; rfl
  | some shown =>
    have hnull := hshown shown hheld
    simp [Cursor.sorted, hheld, hnull]

end

variable {binding : Binding} {raw : ByteArray}

section

variable [Platform] {cursor : Cursor}

theorem shownValid_sorted (shown) : shownValid (shown.map Protocol.sorted) = shownValid shown := by
  cases shown with
  | none => rfl
  | some shown =>
    unfold shownValid
    simp only [Option.map_some, Option.all_some, hasFields_sorted, fieldOf_sorted, exactOutput_sorted,
      isFullValue_sorted, string_sorted, isNull_sorted]

theorem selectionsValid_sorted (selected : List (Key × Value)) (retained) :
    selectionsValid (selected.map fun entry => (entry.1, Protocol.sorted entry.2)) retained =
      selectionsValid selected retained := by
  have hbytes : retainedBytes (OrderedMap.ofEntries keyParts
      (selected.map fun entry => (entry.1, Protocol.sorted entry.2))) =
      retainedBytes (OrderedMap.ofEntries keyParts selected) := by
    unfold retainedBytes
    rw [OrderedMap.ofEntries_map, ← sorted_selected, encodedBytes_sorted]
  unfold selectionsValid
  rw [hbytes, all_map, map_map]
  rfl

theorem checked_sorted (hchecked : checked cursor = .ok cursor) : checked cursor.sorted = .ok cursor.sorted := by
  have hbytes : encodedBytes cursor.sorted.document = encodedBytes cursor.document := by
    unfold encodedBytes
    rw [document_sorted, writeValue_sortedMembers]
    rfl
  have hshown : shownValid cursor.sorted.shown = shownValid cursor.shown := shownValid_sorted _
  have hselected : selectionsValid cursor.sorted.selected maxRetainedBytes =
      selectionsValid cursor.selected maxRetainedBytes := selectionsValid_sorted _ _
  unfold checked checkedWithin at hchecked ⊢
  rw [hbytes, hshown, hselected]
  split_ifs at hchecked with hinvalid hlarge
  rw [if_neg, if_neg hlarge]
  exact hinvalid

theorem isNull_of_shownValid {shown} (h : shownValid (some shown) = true) : isNull shown = false := by
  cases shown with
  | null => cases h
  | bool | number | string | array | object => rfl

theorem shown_of_checked (hchecked : checked cursor = .ok cursor) : ∀ shown ∈ cursor.shown, isNull shown = false := by
  intro shown hshown
  unfold checked checkedWithin at hchecked
  split_ifs at hchecked with hinvalid
  simp only [Bool.not_eq_true', Bool.not_eq_false, Bool.and_eq_true] at hinvalid
  have hvalid := hinvalid.1.2
  rw [hshown] at hvalid
  exact isNull_of_shownValid hvalid

theorem parseBytes_canonical {value read} (h : parse (canonical value) = .ok read) :
    parseBytes (canonical value).toUTF8 = some read := by
  have htext : String.fromUTF8? (canonical value).toUTF8 = some (canonical value) := by
    unfold String.fromUTF8?
    exact dif_pos (canonical value).isValidUTF8
  unfold parseBytes
  rw [htext]
  change (parse (canonical value)).toOption = some read
  rw [h]
  rfl

/-- A value's canonical text is read back as the value, up to the order of members. -/
def RoundTrips (value : Value) : Prop := parse (canonical value) = .ok (Protocol.sorted value)

/-- A valid cursor whose document's text reads back is decoded from its encoding, its held values'
members in name order. -/
theorem decode_encode (hchecked : checked cursor = .ok cursor) (hreads : RoundTrips cursor.document) :
    ∃ raw, encode cursor = .ok raw ∧ decode raw cursor.binding = .ok cursor.sorted := by
  refine ⟨(canonical cursor.document).toUTF8, by rw [encode, hchecked]; rfl, ?_⟩
  have hfields : hasFields (Protocol.sorted cursor.document) cursorFields = true := by
    rw [hasFields_sorted]
    rfl
  have hversion : ((Protocol.sorted cursor.document).get "version").bind smallInt = some cursorVersion := by
    rw [get_sorted]
    rfl
  unfold decode
  rw [parseBytes_canonical hreads]
  simp only [hfields, hversion, bne_self_eq_false, Bool.not_true, Bool.or_false, Bool.false_eq_true, if_false]
  rw [readCursor_document cursor (shown_of_checked hchecked)]
  simp only [canonical_document_sorted, ne_eq, not_true_eq_false, or_false]
  exact (if_neg (not_not.mpr rfl)).trans (checked_sorted hchecked)

theorem decode_ok (hdecoded : decode raw binding = .ok cursor) : ∃ value, parseBytes raw = some value ∧
      (!hasFields value cursorFields || (value.get "version").bind smallInt != some cursorVersion) = false ∧
      readCursor value = some cursor ∧ cursor.binding = binding ∧
      (canonical cursor.document).toUTF8 = raw ∧ checked cursor = .ok cursor := by
  unfold decode at hdecoded
  cases hparsed : parseBytes raw with
  | none =>
    rw [hparsed] at hdecoded
    cases hdecoded
  | some value =>
    simp only [hparsed] at hdecoded
    split_ifs at hdecoded with hshape
    cases hread : readCursor value with
    | none =>
      rw [hread] at hdecoded
      cases hdecoded
    | some found =>
      simp only [hread] at hdecoded
      split_ifs at hdecoded with hother
      obtain ⟨hbinding, hraw⟩ := not_or.mp hother
      obtain ⟨rfl, -⟩ := checked_ok hdecoded
      exact ⟨value, rfl, Bool.not_eq_true _ ▸ hshape, hread, not_not.mp hbinding, not_not.mp hraw, hdecoded⟩

theorem encode_decode (hdecoded : decode raw binding = .ok cursor) :
    encode cursor = .ok raw ∧ cursor.binding = binding := by
  obtain ⟨value, -, -, -, hbinding, hraw, hchecked⟩ := decode_ok hdecoded
  refine ⟨?_, hbinding⟩
  rw [encode, hchecked]
  exact congrArg Except.ok hraw

theorem decode_other {other} (hdecoded : decode raw binding = .ok cursor) (hother : other ≠ binding) :
    decode raw other = .error .invalid := by
  obtain ⟨value, hparsed, hshape, hread, hbinding, -, -⟩ := decode_ok hdecoded
  have hchanged : cursor.binding ≠ other := by
    rw [hbinding]
    exact hother.symm
  unfold decode
  simp only [hparsed, hshape, Bool.false_eq_true, if_false, hread]
  exact if_pos (.inl hchanged)

/-- The stored cursor is a faithful and canonical record: where JSON text reads back, a valid cursor is
decoded from its encoding under its own binding and under no other, and bytes are decoded only as the
encoding of the cursor they hold, under its binding. -/
theorem cursor_codec_faithful :
    (∀ cursor, checked cursor = .ok cursor → RoundTrips cursor.document →
      ∃ raw, encode cursor = .ok raw ∧ decode raw cursor.binding = .ok cursor.sorted ∧
        ∀ other, other ≠ cursor.binding → decode raw other = .error .invalid) ∧
      ∀ raw binding cursor, decode raw binding = .ok cursor → encode cursor = .ok raw ∧ cursor.binding = binding := by
  refine ⟨?_, fun _ _ _ => encode_decode⟩
  intro cursor hchecked hreads
  obtain ⟨raw, hencoded, hdecoded⟩ := decode_encode hchecked hreads
  exact ⟨raw, hencoded, hdecoded, fun other hother => decode_other hdecoded hother⟩

end

attribute [local instance] constantHashPlatform

def heldCursor : Cursor where
  binding := sampleBinding
  plan := zeroPin
  startedAt := 5
  step := 1
  operationId := some sampleOperationId
  attempts := 1
  commitment := some zeros
  selected := [(("a", ⟨"/b", "", ""⟩), objectOf [("d", int 1), ("c", .null)])]
  episode := .continued true
  absent := false
  fault := "transport"
  workload := "w"
  dispatchedAt := 6
  shown := none
  boot := drawnId 3
  protectionLost := false

theorem roundTrips_heldCursor : RoundTrips heldCursor.document := by
  refine parse_canonical (.object (by decide) ?_) (by decide)
  simp only [forall_mem_cons, not_mem_nil, false_imp_iff, implies_true, and_true]
  refine ⟨.int (by decide), .string _, .string _, .int (by decide), .string _,
    .string _, .int (by decide), .int (by decide), .string _,
    .int (by decide), .string _, .array ?_, .bool _, .bool _, .bool _, .bool _, .string _,
    .string _, .int (by decide), .null, .string _, .bool _⟩
  intro entry hentry
  obtain rfl := mem_singleton.mp hentry
  refine .array ?_
  simp only [forall_mem_cons, not_mem_nil, false_imp_iff, implies_true, and_true]
  refine ⟨.string _, .string _, .string _, .string _, .object (by decide) ?_⟩
  simp only [forall_mem_cons, not_mem_nil, false_imp_iff, implies_true, and_true]
  exact ⟨.int (by decide), .null⟩

theorem cursor_codec_faithful_held :
    ∃ raw, encode heldCursor = .ok raw ∧ decode raw sampleBinding = .ok heldCursor.sorted := by
  obtain ⟨after, hafter⟩ := exists_ok (by decide +kernel : (checked heldCursor).isOk = true)
  obtain ⟨rfl, hchecked⟩ := checked_ok hafter
  obtain ⟨raw, hencoded, hdecoded, -⟩ := cursor_codec_faithful.1 heldCursor hchecked roundTrips_heldCursor
  exact ⟨raw, hencoded, hdecoded⟩

end ShimpzTeams.Routines
