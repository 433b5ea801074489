import ShimpzTeams.Routines.Runs

/-!
# The state each transition returns

One lemma for each transition: the guards it passed and the state it returned,
written with the elementary updates of a state.
-/

namespace ShimpzTeams.Routines

open StrictJson Protocol Library List

variable {state next : TeamRoutines} {entropy : Entropy} {now : Int}
variable {value current item due : Routine} {revision : Int} {runId incidentId outcome : String}
  {shown : Option Value} {inFlight : Bool}

section

theorem routine_append_new (hfresh : ∀ item ∈ state.routines, item.routineId ≠ value.routineId) :
    routine { state with routines := state.routines ++ [value] } value.routineId = .ok value := by
  rw [routine_eq_ok, find?_append, find?_eq_none.mpr (by simpa using hfresh)]
  simp

theorem routine_redigested {value : Run} (hroutine : routine state value.routineId = .ok current) (digest) :
    routine (replaceRoutine state { current with outputDigest := digest })
      value.routineId = .ok { current with outputDigest := digest } :=
  routine_replaceRoutine_self hroutine (routine_mem hroutine).2

/-- What a change of a Routine's definition found: it is listed, not being deleted, at the revision
the card saw, and none of its runs is live. -/
structure Changeable (state : TeamRoutines) (routineId : String) (revision : Int) (current : Routine) : Prop where
  routine : routine state routineId = .ok current
  kept : current.deleting = false
  revision : current.revision = revision
  idle : ∀ item ∈ state.runs, item.status.live = true → item.routineId ≠ current.routineId

theorem changeable_eq_ok {routineId} :
    changeable state routineId revision = .ok current ↔ Changeable state routineId revision current := by
  simp only [changeable, bind_eq_ok, guard_eq_ok]
  simp only [Bool.not_eq_true, bne_iff_ne, ne_eq, not_not, any_eq_false, beq_iff_eq, liveRuns,
    mem_filter, and_imp, Except.ok.injEq]
  constructor
  · rintro ⟨_, hroutine, hkept, hrevision, hidle, rfl⟩
    exact ⟨hroutine, hkept, hrevision, hidle⟩
  · rintro ⟨hroutine, hkept, hrevision, hidle⟩
    exact ⟨_, hroutine, hkept, hrevision, hidle, rfl⟩

def pausedForm (paused : Bool) (value : Routine) : Routine :=
  { value with paused := paused, failures := if paused then value.failures else 0 }

theorem setPaused_eq_ok {routineId paused} : setPaused state routineId paused = .ok next ↔
      ∃ value, routine state routineId = .ok value ∧ value.deleting = false ∧
        next = replaceRoutine state (pausedForm paused value) := by
  simp only [setPaused, bind_eq_ok, guard_eq_ok, Bool.not_eq_true, Except.ok.injEq]
  constructor
  · rintro ⟨value, hroutine, hkept, rfl⟩
    exact ⟨value, hroutine, hkept, rfl⟩
  · rintro ⟨value, hroutine, hkept, rfl⟩
    exact ⟨value, hroutine, hkept, rfl⟩

theorem beginDelete_of_ok {routineId} (h : (beginDelete state routineId).map Prod.fst = .ok next) :
    ∃ value, routine state routineId = .ok value ∧ next = replaceRoutine state { value with deleting := true } := by
  simp only [beginDelete, map_eq_ok, bind_eq_ok, Except.ok.injEq] at h
  obtain ⟨_, ⟨value, hroutine, rfl⟩, rfl⟩ := h
  exact ⟨value, hroutine, rfl⟩

variable [Platform]

def definedForm (value : Routine) (revision : Int) : Routine :=
  { value with
    revision := revision, needsReconfirm := false, deleting := false, failures := 0,
    outputDigest := "" }

/-- A new revision as its admission leaves it, with a fresh scheduling state. -/
def admittedForm (value : Routine) (revision : Int) : Routine :=
  { definedForm value revision with
    gapStartedAt := 0, missed := 0, reportedMissed := 0, rollupMinute := 0, rollupRuns := 0,
    rollupUsage := none, runRequested := 0 }

def updatedForm (value current : Routine) : Routine :=
  { admittedForm value (current.revision + 1) with
    paused := current.paused, rollupMinute := current.rollupMinute,
    rollupRuns := current.rollupRuns, rollupUsage := current.rollupUsage }

def refinedBase (value current : Routine) : Routine :=
  { current with
    description := value.description, assistants := value.assistants, plan := value.plan,
    permitted := value.permitted, confirmation := value.confirmation }

def refinedForm (value current : Routine) : Routine :=
  definedForm (refinedBase value current) (current.revision + 1)

/-- The contract and the size of an admitted definition. -/
structure Defined (value : Routine) (revision : Int) : Prop where
  valid : definitionValid { value with revision := revision } = true
  fits : fits value = true

theorem defined_eq_ok {result} :
    defined value revision = .ok result ↔ Defined value revision ∧ result = definedForm value revision := by
  simp only [defined, guard_eq_ok, Bool.not_eq_true', Bool.not_eq_false, Except.ok.injEq]
  constructor
  · rintro ⟨hvalid, hfits, rfl⟩
    exact ⟨⟨hvalid, hfits⟩, rfl⟩
  · rintro ⟨⟨hvalid, hfits⟩, rfl⟩
    exact ⟨hvalid, hfits, rfl⟩

theorem admitted_eq_ok {result} : admitted value revision = .ok result ↔
      Defined value revision ∧ firstRun (definedForm value revision) = .ok value.nextRunAt ∧
        result = admittedForm value revision := by
  simp only [admitted, bind_eq_ok, defined_eq_ok, guard_eq_ok, bne_iff_ne, ne_eq, not_not, Except.ok.injEq]
  constructor
  · rintro ⟨_, ⟨hdefined, rfl⟩, first, hfirst, rfl, rfl⟩
    exact ⟨hdefined, hfirst, rfl⟩
  · rintro ⟨hdefined, hfirst, rfl⟩
    exact ⟨_, ⟨hdefined, rfl⟩, _, hfirst, rfl, rfl⟩

/-- What an addition of a Routine passed. -/
structure Added (state : TeamRoutines) (value : Routine) : Prop where
  defined : Defined value 1
  first : firstRun (definedForm value 1) = .ok value.nextRunAt
  fresh : ∀ item ∈ state.routines, item.routineId ≠ value.routineId
  room : state.routines.length < maxRoutines
  budgets : budgets state.routines (admittedForm value 1) = .ok ()

theorem addRoutine_eq_ok : addRoutine state value = .ok next ↔
      Added state value ∧ next = { state with routines := state.routines ++ [admittedForm value 1] } := by
  simp only [addRoutine, bind_eq_ok, admitted_eq_ok, guard_eq_ok, any_eq_true, beq_iff_eq,
    not_exists, not_and, not_le, Except.ok.injEq]
  constructor
  · rintro ⟨_, ⟨hdefined, hfirst, rfl⟩, hfresh, hroom, _, hbudgets, rfl⟩
    exact ⟨⟨hdefined, hfirst, hfresh, hroom, hbudgets⟩, rfl⟩
  · rintro ⟨⟨hdefined, hfirst, hfresh, hroom, hbudgets⟩, rfl⟩
    exact ⟨_, ⟨hdefined, hfirst, rfl⟩, hfresh, hroom, _, hbudgets, rfl⟩

def createdNotice (id : String) (value : Routine) (now : Int) (usage : Option Value) (steps : List Value) : Notice :=
  { routineNotice id value.routineId "created" now (objectOf [("steps", .array steps)]) with
    usage := usage }

theorem create_of_ok {usage steps} (h : create state value now usage steps entropy = .ok next) :
    ∃ id, Added state value ∧ newId entropy = .ok id ∧ Publishable state (createdNotice id value now usage steps) ∧
      next = publish { state with routines := state.routines ++ [admittedForm value 1] }
        ((createdNotice id value now usage steps).named (admittedForm value 1)) := by
  simp only [create, bind_eq_ok, addRoutine_eq_ok] at h
  obtain ⟨_, ⟨hadded, rfl⟩, id, hid, hput⟩ := h
  obtain ⟨current, hcurrent, hadmits, rfl⟩ := (putNotice_eq_ok rfl).mp hput
  have hself : routine { state with routines := state.routines ++ [admittedForm value 1] }
      value.routineId = .ok (admittedForm value 1) := routine_append_new hadded.fresh
  obtain rfl := Except.ok.inj (hcurrent.symm.trans hself)
  exact ⟨id, hadded, hid, ⟨hadmits.detail, hadmits.version, hadmits.room⟩, rfl⟩

theorem putChanged_of_ok {changed} (h : putChanged state changed now entropy = .ok next)
    (hroutine : routine state changed.routineId = .ok current) : ∃ id, newId entropy = .ok id ∧
      Publishable state (routineNotice id changed.routineId "changed" now (objectOf [])) ∧
      next = publish (replaceRoutine state changed)
        ((routineNotice id changed.routineId "changed" now (objectOf [])).named changed) := by
  simp only [putChanged, bind_eq_ok] at h
  obtain ⟨id, hid, hput⟩ := h
  obtain ⟨found, hfound, hadmits, rfl⟩ := (putNotice_eq_ok rfl).mp hput
  have hself := routine_replaceRoutine_self hroutine (rfl : changed.routineId = _)
  obtain rfl := Except.ok.inj (hfound.symm.trans hself)
  exact ⟨id, hid, ⟨hadmits.detail, hadmits.version, hadmits.room⟩, rfl⟩

theorem update_of_ok {expectedRevision} (h : update state value expectedRevision now entropy = .ok next) :
    ∃ current id, Changeable state value.routineId expectedRevision current ∧ Defined value (current.revision + 1) ∧
      firstRun (definedForm value (current.revision + 1)) = .ok value.nextRunAt ∧
      budgets (others state current.routineId) (admittedForm value (current.revision + 1)) = .ok () ∧
      newId entropy = .ok id ∧ Publishable state (routineNotice id value.routineId "changed" now (objectOf [])) ∧
      next = publish (replaceRoutine state (updatedForm value current))
        ((routineNotice id value.routineId "changed" now (objectOf [])).named (updatedForm value current)) := by
  simp only [update, bind_eq_ok, changeable_eq_ok, admitted_eq_ok] at h
  obtain ⟨current, hchangeable, _, ⟨hdefined, hfirst, rfl⟩, _, hbudgets, hput⟩ := h
  obtain ⟨id, hid, hadmits, rfl⟩ := putChanged_of_ok hput hchangeable.routine
  exact ⟨current, id, hchangeable, hdefined, hfirst, hbudgets, hid, hadmits, rfl⟩

theorem refine_of_ok {expectedRevision} (h : refine state value expectedRevision now entropy = .ok next) :
    ∃ current id, Changeable state value.routineId expectedRevision current ∧ value.timezone = current.timezone ∧
      Defined (refinedBase value current) (current.revision + 1) ∧
      budgets (others state current.routineId) (refinedForm value current) = .ok () ∧ newId entropy = .ok id ∧
      Publishable state (routineNotice id current.routineId "changed" now (objectOf [])) ∧
      next = publish (replaceRoutine state (refinedForm value current))
        ((routineNotice id current.routineId "changed" now (objectOf [])).named (refinedForm value current)) := by
  simp only [refine, bind_eq_ok, changeable_eq_ok, guard_eq_ok, bne_iff_ne, ne_eq, not_not, defined_eq_ok] at h
  obtain ⟨current, hchangeable, hzone, _, ⟨hdefined, rfl⟩, _, hbudgets, hput⟩ := h
  have hself := routine_self hchangeable.routine
  obtain ⟨id, hnew, hadmits, rfl⟩ := putChanged_of_ok hput hself
  exact ⟨current, id, hchangeable, hzone, hdefined, hbudgets, hnew, hadmits, rfl⟩

theorem completeDelete_of_ok {routineId} (h : completeDelete state routineId now entropy = .ok next) :
    ∃ value id, routine state routineId = .ok value ∧ value.deleting = true ∧
      (∀ item ∈ state.runs, item.routineId ≠ routineId) ∧ newId entropy = .ok id ∧
      Publishable state (routineNotice id routineId "deleted" now (objectOf [])) ∧
      next = { publish state ((routineNotice id routineId "deleted" now (objectOf [])).named value) with
        routines := state.routines.filter fun item => item.routineId != routineId } := by
  simp only [completeDelete, bind_eq_ok, guard_eq_ok, Bool.or_eq_true, Bool.not_eq_true',
    any_eq_true, beq_iff_eq, not_or, Bool.not_eq_false, not_exists, not_and,
    Except.ok.injEq] at h
  obtain ⟨value, hroutine, ⟨hdeleting, hidle⟩, id, hid, _, hput, rfl⟩ := h
  obtain ⟨current, hcurrent, hadmits, rfl⟩ := (putNotice_eq_ok rfl).mp hput
  obtain rfl := Except.ok.inj (hcurrent.symm.trans hroutine)
  exact ⟨current, id, hroutine, hdeleting, hidle, hid, hadmits, rfl⟩

theorem markScopeChanged_of_ok {routineId} (h : markScopeChanged state routineId now entropy = .ok next) :
    ∃ value id, routine state routineId = .ok value ∧ newId entropy = .ok id ∧
      Publishable state (routineNotice id routineId "scope-changed" now (objectOf [])) ∧ next = replaceRoutine
        (publish state ((routineNotice id routineId "scope-changed" now (objectOf [])).named value))
        { value with needsReconfirm := true } := by
  simp only [markScopeChanged, bind_eq_ok, Except.ok.injEq] at h
  obtain ⟨value, hroutine, id, hid, _, hput, rfl⟩ := h
  obtain ⟨current, hcurrent, hadmits, rfl⟩ := (putNotice_eq_ok rfl).mp hput
  obtain rfl := Except.ok.inj (hcurrent.symm.trans hroutine)
  exact ⟨current, id, hroutine, hid, hadmits, rfl⟩

end

section

def boundGeneration (value : Run) (networkId : String) : String :=
  if value.generation.isEmpty then generationFor networkId value.runId "" else value.generation

/-- A run whose segment started: its generation, and once a longer lease. -/
def boundForm (value : Run) (networkId : String) (now : Int) : Run :=
  { value with
    generation := boundGeneration value networkId,
    leaseExpiresAt := if value.generation.isEmpty then max value.leaseExpiresAt (leaseUntil value now)
      else value.leaseExpiresAt }

/-- A run charged one segment's active time. -/
def spentForm (value : Run) (seconds milliseconds : Int) : Run :=
  { value with
    usage := set value.usage "duration_ms" (int (joinedDuration value.usage milliseconds)),
    activeSecondsLeft := value.activeSecondsLeft - seconds }

def fencedForm (value : Run) : Run :=
  { value with status := .held, leaseSha256 := "", leaseKey := "", leaseExpiresAt := 0 }

theorem bindGeneration_of_ok {networkId lease} (h : bindGeneration state runId lease now networkId = .ok next) :
    ∃ value, run state runId = .ok value ∧ Drives value lease now ∧ safeIdRe (boundGeneration value networkId) = true ∧
      networkOf (boundGeneration value networkId) runId = some networkId ∧
      next = replaceRun state (boundForm value networkId now) := by
  simp only [bindGeneration, bind_eq_ok, liveLease_eq_ok, guard_eq_ok] at h
  obtain ⟨value, ⟨hrun, hdrives⟩, hvalid, hnext⟩ := h
  obtain ⟨hmem, rfl⟩ := run_mem hrun
  simp only [Bool.or_eq_true, Bool.not_eq_true', bne_iff_ne, ne_eq, not_or, Bool.not_eq_false, not_not] at hvalid
  exact ⟨value, hrun, hdrives, hvalid.1, hvalid.2, (Except.ok.inj hnext).symm⟩

theorem spend_of_ok {lease elapsed} (h : spend state runId lease now elapsed = .ok next) :
    ∃ value, run state runId = .ok value ∧ Drives value lease now ∧ 0 ≤ elapsed.1 ∧
      0 ≤ elapsed.2 ∧ next = replaceRun state (spentForm value elapsed.1 elapsed.2) := by
  simp only [spend, guard_eq_ok, bind_eq_ok, liveLease_eq_ok] at h
  obtain ⟨hdurations, value, ⟨hrun, hdrives⟩, hnext⟩ := h
  simp only [Bool.or_eq_true, decide_eq_true_eq, not_or, not_lt] at hdurations
  exact ⟨value, hrun, hdrives, hdurations.1, hdurations.2, (Except.ok.inj hnext).symm⟩

theorem loseProtection_of_ok (h : loseProtection state runId = .ok next) :
    ∃ value, run state runId = .ok value ∧ next = replaceRun state { value with protectionLost := true } := by
  simp only [loseProtection, bind_eq_ok, Except.ok.injEq] at h
  obtain ⟨value, hrun, rfl⟩ := h
  exact ⟨value, hrun, rfl⟩

theorem held_eq_ok {value} :
    held state value = .ok next ↔ value.generation ≠ "" ∧ next = replaceRun state (fencedForm value) := by
  simp only [held, guard_eq_ok, String.isEmpty_iff, Except.ok.injEq, ne_eq]
  exact and_congr_right fun _ => eq_comm

theorem fence_of_ok {lease} (h : fence state runId lease now = .ok next) :
    ∃ value, run state runId = .ok value ∧ Drives value lease now ∧ value.generation ≠ "" ∧
      next = replaceRun state (fencedForm value) := by
  simp only [fence, bind_eq_ok, liveLease_eq_ok, held_eq_ok] at h
  obtain ⟨value, ⟨hrun, hdrives⟩, hgeneration, rfl⟩ := h
  exact ⟨value, hrun, hdrives, hgeneration, rfl⟩

theorem holdRecovered_of_ok {leaseSha256} (h : holdRecovered state runId leaseSha256 = .ok next) :
    ∃ value, run state runId = .ok value ∧ value.status = .leased ∧
      value.leaseSha256 = leaseSha256 ∧ value.generation ≠ "" ∧ next = replaceRun state (fencedForm value) := by
  simp only [holdRecovered, bind_eq_ok, readLease_eq_ok, held_eq_ok] at h
  obtain ⟨value, ⟨hrun, hstatus, hdigest⟩, hgeneration, rfl⟩ := h
  exact ⟨value, hrun, hstatus, hdigest, hgeneration, rfl⟩

variable [Platform]

/-- A run parked for a person. -/
def frozenForm (value : Run) (request : Request) : Run :=
  { versioned value with
    status := .frozen, leaseSha256 := "", leaseKey := "", leaseExpiresAt := 0,
    requestKind := request.kind, assistantId := request.assistantId, action := request.action }

/-- A run leased again for a person's answer. -/
def humanForm (value : Run) (token : String) (now : Int) : Run :=
  { value with
    status := .leased, leaseSha256 := leaseSha256 token, leaseKey := humanLease,
    leaseExpiresAt := leaseUntil value now, requestKind := "", assistantId := "", action := "",
    position := none, steps := 0 }

def indexedForm (value : Run) (step : HeldStep) : Run :=
  { versioned value with
    status := .unresolved, assistantId := step.assistantId, action := step.action,
    position := step.position, steps := step.steps }

/-- An incident set aside. -/
def skippedForm (value : Run) : Run := { versioned value with status := .skipped }

/-- What a freeze passed beside its lease. -/
structure Freezable (current : Routine) (request : Request) : Prop where
  kept : current.deleting = false
  kind : requestKinds.contains request.kind = true
  assistant : (canonicalAssistantId (text request.assistantId)).isSome = true
  action : (canonicalActionId (text request.action)).isSome = true
  placed : requestPlaced current.plan request = true

theorem freeze_of_ok {lease request} (h : freeze state runId lease now request entropy = .ok next) :
    ∃ value current told, run state runId = .ok value ∧ Drives value lease now ∧ Freezable current request ∧
      Told state value "frozen" now (objectOf [("request_kind", text request.kind)]) entropy current told ∧
      next = replaceRun told (frozenForm value request) := by
  simp only [freeze, bind_eq_ok, liveLease_eq_ok, guard_eq_ok] at h
  obtain ⟨value, ⟨hrun, hdrives⟩, current, hcurrent, hkept, hvalid, -, ⟨told, frozen⟩, htold, hnext⟩ := h
  obtain ⟨rfl, found, htold⟩ := told_of_ok htold
  obtain rfl := Except.ok.inj (htold.routine.symm.trans hcurrent)
  simp only [Bool.or_eq_true, Bool.not_eq_true', not_or, Bool.not_eq_false,
    Option.isNone_iff_eq_none, ← Option.isSome_iff_ne_none] at hvalid
  obtain ⟨⟨⟨hkind, hassistant⟩, haction⟩, hplaced⟩ := hvalid
  exact ⟨value, found, told, hrun, hdrives, ⟨by simpa using hkept, hkind, hassistant, haction,
    hplaced⟩, htold, (Except.ok.inj hnext).symm⟩

theorem humanLeased_eq_ok {value resumed token} : humanLeased value now entropy = .ok (resumed, token) ↔
      newToken entropy = .ok token ∧ resumed = humanForm value token now := by
  simp only [humanLeased, bind_eq_ok, Except.ok.injEq, Prod.mk.injEq]
  constructor
  · rintro ⟨_, htoken, rfl, rfl⟩
    exact ⟨htoken, rfl⟩
  · rintro ⟨htoken, rfl⟩
    exact ⟨token, htoken, rfl, rfl⟩

def thawedForm (value : Run) (token : String) (now requestsUsed : Int) : Run :=
  { humanForm value token now with requestsUsed := max value.requestsUsed requestsUsed }

theorem thaw_of_ok {requestsUsed} (h : (thaw state runId now requestsUsed entropy).map Prod.fst = .ok next) :
    ∃ value current token, run state runId = .ok value ∧ value.status = .frozen ∧
      routine state value.routineId = .ok current ∧ current.deleting = false ∧ newToken entropy = .ok token ∧
      next = replaceRun state (thawedForm value token now requestsUsed) := by
  simp only [thaw, map_eq_ok, bind_eq_ok, guard_eq_ok] at h
  obtain ⟨_, ⟨value, hrun, hstatus, current, hcurrent, hkept, ⟨resumed, token⟩, hlease, hresult⟩, hnext⟩ := h
  obtain ⟨htoken, rfl⟩ := humanLeased_eq_ok.mp hlease
  cases hresult
  exact ⟨value, current, token, hrun, by simpa using hstatus, hcurrent, by simpa using hkept, htoken, hnext.symm⟩

end

section

theorem incident_mem {value} (h : incident state incidentId = .ok value) :
    value ∈ state.runs ∧ value.runId = incidentId ∧ value.status.live = false := by
  obtain ⟨hmem, hid⟩ := find?_key_mem (incident_eq_ok.mp h)
  obtain ⟨hruns, hlive⟩ := mem_filter.mp hmem
  exact ⟨hruns, hid, by simpa using hlive⟩

theorem spendIncident_of_ok {seconds} (h : spendIncident state incidentId seconds = .ok next) :
    ∃ value, incident state incidentId = .ok value ∧ next = replaceRun state
        { value with activeSecondsLeft := max (wrap64 (value.activeSecondsLeft - seconds)) 0 } := by
  simp only [spendIncident, bind_eq_ok, Except.ok.injEq] at h
  obtain ⟨value, hincident, rfl⟩ := h
  exact ⟨value, hincident, rfl⟩

theorem releaseIncident_of_ok (h : releaseIncident state incidentId = .ok next) :
    next = state ∨ ∃ value, run state incidentId = .ok value ∧ value.status = .skipped ∧
      next = dropRun state incidentId := by
  unfold releaseIncident at h
  cases hfind : state.runs.find? (fun item => item.runId == incidentId) with
  | none =>
    simp only [hfind, Except.ok.injEq] at h
    exact .inl h.symm
  | some value =>
    simp only [hfind, guard_eq_ok, bne_iff_ne, ne_eq, not_not, Except.ok.injEq] at h
    exact .inr ⟨value, run_eq_ok.mpr hfind, h.1, h.2.symm⟩

/-- The state with a generation to remove, unless it waits already. -/
def queueOnce (state : TeamRoutines) (held : String × String) : TeamRoutines :=
  if state.discards.contains held then state else queue state held

@[simp]
theorem queueOnce_runs (held) : (queueOnce state held).runs = state.runs := by
  unfold queueOnce
  split <;> rfl

@[simp]
theorem queueOnce_routines (held) : (queueOnce state held).routines = state.routines := by
  unfold queueOnce
  split <;> rfl

theorem queueOnce_discards (held) : (queueOnce state held).discards =
      if state.discards.contains held then state.discards else state.discards ++ [held] := by
  unfold queueOnce
  split <;> rfl

variable [Platform]

theorem skipIncident_of_ok {expected} (h : skipIncident state incidentId now expected entropy = .ok next) :
    ∃ value current told, incident state incidentId = .ok value ∧ value.status = .unresolved ∧
      Told state value "user-skipped" now (objectOf []) entropy current told ∧
      next = replaceRun told (skippedForm value) := by
  simp only [skipIncident, bind_eq_ok, unresolvedIncident_eq_ok] at h
  obtain ⟨value, ⟨hincident, hstatus⟩, _, -, ⟨told, skipped⟩, htold, hnext⟩ := h
  obtain ⟨rfl, current, htold⟩ := told_of_ok htold
  exact ⟨value, current, told, hincident, hstatus, htold, (Except.ok.inj hnext).symm⟩

theorem settleHold_of_ok {step} (h : settleHold state runId now step entropy = .ok next) :
    ∃ value current told, run state runId = .ok value ∧ value.status = .held ∧
      Told state value "held" now (objectOf []) entropy current told ∧ (current.deleting = false ∧
          next = ended (replaceRun told (indexedForm value step)) (indexedForm value step) now ∨
        current.deleting = true ∧
          skipIncident (ended (replaceRun told (indexedForm value step)) (indexedForm value step) now)
            runId now none entropy = .ok next) := by
  simp only [settleHold, bind_eq_ok, guard_eq_ok] at h
  obtain ⟨value, hrun, hstatus, current, hcurrent, ⟨told, indexed⟩, htold, hnext⟩ := h
  obtain ⟨rfl, found, htold⟩ := told_of_ok htold
  obtain rfl := Except.ok.inj (htold.routine.symm.trans hcurrent)
  refine ⟨value, found, told, hrun, by simpa using hstatus, htold, ?_⟩
  cases hdeleting : found.deleting with
  | false =>
    rw [hdeleting] at hnext
    exact .inl ⟨rfl, (Except.ok.inj hnext).symm⟩
  | true =>
    rw [hdeleting] at hnext
    exact .inr ⟨rfl, hnext⟩

structure Reopenable (state : TeamRoutines) (value : Run) (current : Routine) (generation : String) :
    Prop where
  routine : routine state value.routineId = .ok current
  kept : current.deleting = false
  unpaused : current.paused = false
  revision : current.revision = value.revision
  active : 0 < value.activeSecondsLeft
  idle : ∀ item ∈ state.runs, item.status.live = true → item.routineId ≠ value.routineId
  network : (networkOf generation value.runId).isSome = true

/-- A run resumed in place as its continuation. -/
def reopenedForm (value : Run) (token : String) (now : Int) (generation : String) : Run :=
  { humanForm value token now with generation := generation }

theorem reopenIncident_of_ok {generation}
    (h : (reopenIncident state incidentId now generation entropy).map Prod.fst = .ok next) :
    ∃ value current token, incident state incidentId = .ok value ∧ value.status = .unresolved ∧
      Reopenable state value current generation ∧ newToken entropy = .ok token ∧
      next = queueOnce (replaceRun state (reopenedForm value token now generation)) (incidentId, value.generation) := by
  simp only [reopenIncident, map_eq_ok, bind_eq_ok, unresolvedIncident_eq_ok, guard_eq_ok] at h
  obtain ⟨_, ⟨value, ⟨hincident, hstatus⟩, current, hcurrent, hresumable, hactive, hidle,
    ⟨resumed, token⟩, hlease, hresult⟩, hnext⟩ := h
  obtain ⟨htoken, rfl⟩ := humanLeased_eq_ok.mp hlease
  cases hresult
  obtain ⟨-, rfl, -⟩ := incident_mem hincident
  simp only [Bool.or_eq_true, bne_iff_ne, ne_eq, not_or, Bool.not_eq_true, not_not] at hresumable
  simp only [Bool.or_eq_true, any_eq_true, liveRuns, mem_filter, beq_iff_eq, not_or,
    not_exists, not_and, and_imp, Option.isNone_iff_eq_none, ← Option.isSome_iff_ne_none] at hidle
  exact ⟨value, current, token, hincident, hstatus,
    ⟨hcurrent, hresumable.1.1, hresumable.1.2, hresumable.2, not_le.mp hactive, hidle.1, hidle.2⟩,
    htoken, hnext.symm⟩

theorem runIncident_of_ok {expected} (h : runIncident state incidentId now expected entropy = .ok next) :
    ∃ value skipped current, incident state incidentId = .ok value ∧
      skipIncident state incidentId now (some expected) entropy = .ok skipped ∧
      routine skipped value.routineId = .ok current ∧ current.deleting = false ∧
      next = replaceRoutine (replaceRoutine skipped (pausedForm false current))
        { pausedForm false current with runRequested := now } := by
  simp only [runIncident, bind_eq_ok, setPaused_eq_ok, Except.ok.injEq] at h
  obtain ⟨value, hincident, skipped, hskip, _, ⟨current, hcurrent, hkept, rfl⟩, resumed, hresumed, rfl⟩ := h
  have hself := routine_replaceRoutine_self hcurrent
    (show (pausedForm false current).routineId = value.routineId from (routine_mem hcurrent).2)
  obtain rfl := Except.ok.inj (hresumed.symm.trans hself)
  exact ⟨value, skipped, current, hincident, hskip, hcurrent, hkept, rfl⟩

theorem pauseIncident_of_ok {reason} (h : pauseIncident state incidentId now reason entropy = .ok next) :
    ∃ value current told, incident state incidentId = .ok value ∧ value.status = .unresolved ∧
      routine state value.routineId = .ok current ∧ current.deleting = false ∧
      Told (replaceRoutine state (pausedForm true current)) value "paused" now
        (objectOf [("reason", text reason.asStr)]) entropy (pausedForm true current) told ∧
      next = replaceRun told (versioned value) := by
  simp only [pauseIncident, bind_eq_ok, unresolvedIncident_eq_ok, setPaused_eq_ok] at h
  obtain ⟨value, ⟨hincident, hstatus⟩, _, ⟨current, hcurrent, hkept, rfl⟩, ⟨told, noticed⟩, htold, hnext⟩ := h
  obtain ⟨rfl, found, htold⟩ := told_of_ok htold
  have hself := routine_replaceRoutine_self hcurrent
    (show (pausedForm true current).routineId = value.routineId from (routine_mem hcurrent).2)
  obtain rfl := Except.ok.inj (htold.routine.symm.trans hself)
  exact ⟨value, current, told, hincident, hstatus, hcurrent, hkept, htold, (Except.ok.inj hnext).symm⟩

end

section

def DigestFrom (current : Routine) (shown : Option Value) (digest : String) : Prop :=
  digest = current.outputDigest ∨ ∃ slot, shown = some slot ∧ digest = (string (fieldOf slot "digest")).getD ""

theorem replaceRoutine_unchanged {routineId} (h : routine state routineId = .ok current) :
    replaceRoutine state current = state := by
  obtain ⟨-, rfl⟩ := routine_mem h
  unfold replaceRoutine
  rw [replaceFirst_self (routine_eq_ok.mp h)]

/-- What only tells leaves of a state: its runs, queued removals, starts, the instant it last
served, and which Routines it lists. -/
structure OnlyTells (state next : TeamRoutines) : Prop where
  runs : next.runs = state.runs
  discards : next.discards = state.discards
  starts : next.starts = state.starts
  servedAt : next.servedAt = state.servedAt
  ids : next.routines.map Routine.routineId = state.routines.map Routine.routineId

theorem OnlyTells.refl (state) : OnlyTells state state := ⟨rfl, rfl, rfl, rfl, rfl⟩

theorem OnlyTells.trans {middle} (h : OnlyTells state middle) (h' : OnlyTells middle next) : OnlyTells state next :=
  ⟨h'.runs.trans h.runs, h'.discards.trans h.discards, h'.starts.trans h.starts,
    h'.servedAt.trans h.servedAt, h'.ids.trans h.ids⟩

theorem OnlyTells.run_eq (h : OnlyTells state next) : run next runId = run state runId := by
  unfold run
  rw [h.runs]

theorem onlyTells_publish (state notice) : OnlyTells state (publish state notice) := ⟨rfl, rfl, rfl, rfl, rfl⟩

theorem onlyTells_replaceRoutine (state value) :
    OnlyTells state (replaceRoutine state value) := ⟨rfl, rfl, rfl, rfl, replaceRoutine_ids value⟩

theorem shownDigest_from {value} (hshown : string (fieldOf (shownOutput current value shown) "state") = some "shown") :
    DigestFrom current shown ((shownDigest current value shown).getD "") := by
  unfold shownOutput at hshown
  cases hvalid : validShown current value shown with
  | none =>
    rw [hvalid] at hshown
    exact absurd (Option.some.inj hshown) (by decide)
  | some slot =>
    refine .inr ⟨slot, (Option.filter_eq_some_iff.mp hvalid).1, ?_⟩
    rw [shownDigest, hvalid, Option.bind_some]

variable [Platform]

structure Rolls (state : TeamRoutines) (current : Routine) (value : Run) (now : Int) : Prop where
  continuous : continuous current = true
  forward : current.rollupMinute ≤ minuteOf now
  within : rolledRuns current now ≤ maxRollupRuns
  put : Publishable (replaceRoutine state (rolledForm current value now))
    (rollupNotice current value now)

theorem healthy_of_ok {value result}
    (hroutine : routine state value.routineId = .ok current) (h : healthy state value now = .ok result) :
    result = none ∨ Rolls state current value now ∧
      result = some (publish (replaceRoutine state (rolledForm current value now))
        ((rollupNotice current value now).named (rolledForm current value now))) := by
  simp only [healthy, bind_eq_ok, hroutine, Except.ok.injEq, exists_eq_left'] at h
  by_cases hcontinuous : continuous current = true
  · rw [if_neg (by simp [hcontinuous])] at h
    by_cases hskip : (decide (minuteOf now < current.rollupMinute) ||
        decide (maxRollupRuns < rolledRuns current now)) = true
    · rw [if_pos hskip] at h
      exact .inl (Except.ok.inj h).symm
    · rw [if_neg hskip] at h
      simp only [Bool.or_eq_true, decide_eq_true_eq, not_or, not_lt] at hskip
      simp only [bind_eq_ok] at h
      obtain ⟨rolled, hput, hresult⟩ := h
      obtain ⟨named, hnamed, hadmits, rfl⟩ := (putNotice_eq_ok rfl).mp hput
      have hself : routine (replaceRoutine state (rolledForm current value now)) current.routineId =
          .ok (rolledForm current value now) :=
        routine_replaceRoutine_self (routine_self hroutine) rfl
      obtain rfl := Except.ok.inj (hnamed.symm.trans hself)
      exact .inr ⟨⟨hcontinuous, hskip.1, hskip.2, hadmits⟩, (Except.ok.inj hresult).symm⟩
  · rw [if_pos (by simpa using hcontinuous)] at h
    exact .inl (Except.ok.inj h).symm

def completedNoticeDetail (current : Routine) (output : Value) : Value :=
  objectOf [("plan", summary current.plan current.revision), ("output", output)]

/-- What completing a run does before the run goes: it stays quiet, rolls up into its minute, or
tells the person. -/
inductive Completed (state : TeamRoutines) (value : Run) (now : Int) (shown : Option Value)
    (entropy : Entropy) (current : Routine) : TeamRoutines → Prop where
  | quiet (hunnoticed : value.noticeVersion = 0) :
      Completed state value now shown entropy current
        (replaceRoutine state { current with failures := 0 })
  | rolled (hunnoticed : value.noticeVersion = 0) (hrolls : Rolls state current value now) :
      Completed state value now shown entropy current
        (publish (replaceRoutine state (rolledForm current value now))
          ((rollupNotice current value now).named (rolledForm current value now)))
  | told {digest output told} (hdigest : DigestFrom current shown digest)
      (htold : Told (replaceRoutine state { current with outputDigest := digest }) value
        (completed value) now (completedNoticeDetail current output) entropy
        { current with outputDigest := digest } told) :
      Completed state value now shown entropy current told

theorem told_of_tell {value found output} (hroutine : routine state value.routineId = .ok found)
    (h : tellCompletion state current value (completed value) now output entropy = .ok next) :
    Told state value (completed value) now (completedNoticeDetail current output) entropy found next := by
  simp only [tellCompletion, map_eq_ok] at h
  obtain ⟨⟨told, versioned⟩, htold, rfl⟩ := h
  obtain ⟨rfl, other, htold⟩ := told_of_ok htold
  obtain rfl := Except.ok.inj (htold.routine.symm.trans hroutine)
  exact htold

theorem completed_of_tell {value digest output}
    (hroutine : routine state value.routineId = .ok current) (hdigest : DigestFrom current shown digest)
    (h : tellCompletion (replaceRoutine state { current with outputDigest := digest }) current value
      (completed value) now output entropy = .ok next) : Completed state value now shown entropy current next :=
  .told hdigest (told_of_tell (routine_redigested hroutine digest) h)

theorem completed_of_tell_same {value output} (hroutine : routine state value.routineId = .ok current)
    (h : tellCompletion state current value (completed value) now output entropy = .ok next) :
    Completed state value now shown entropy current next := by
  have hsame : replaceRoutine state { current with outputDigest := current.outputDigest } = state :=
    replaceRoutine_unchanged hroutine
  exact completed_of_tell hroutine (.inl rfl) (hsame.symm ▸ h)

theorem Counted.onlyTells (h : Counted state current outcome now entropy next) : OnlyTells state next := by
  cases h with
  | uncounted => exact .refl _
  | counted => exact onlyTells_replaceRoutine _ _
  | paused => exact (onlyTells_replaceRoutine _ _).trans (onlyTells_publish _ _)

theorem Told.onlyTells {value detail}
    (h : Told state value outcome now detail entropy current next) : OnlyTells state next :=
  (onlyTells_publish _ _).trans h.counted.onlyTells

theorem Completed.onlyTells {value} (h : Completed state value now shown entropy current next) :
    OnlyTells state next := by
  cases h with
  | quiet => exact onlyTells_replaceRoutine _ _
  | rolled => exact (onlyTells_replaceRoutine _ _).trans (onlyTells_publish _ _)
  | told _ htold => exact (onlyTells_replaceRoutine _ _).trans htold.onlyTells

theorem showCompletion_of_ok {value mode} (hroutine : routine state value.routineId = .ok current)
    (h : showCompletion state current value mode (completed value) now shown entropy = .ok next) :
    Completed state value now shown entropy current next := by
  unfold showCompletion at h
  dsimp only at h
  split at h
  · rename_i hchanges
    simp only [Bool.and_eq_true, beq_iff_eq] at hchanges
    split at h
    · split at h
      · rename_i hversion
        cases h
        exact .quiet (by simpa using hversion)
      · exact completed_of_tell_same hroutine h
    · exact completed_of_tell hroutine (shownDigest_from hchanges.2) h
  · exact completed_of_tell_same hroutine h

theorem completion_of_ok {value} (h : completion state value (completed value) now shown entropy = .ok next) :
    ∃ current, routine state value.routineId = .ok current ∧ Completed state value now shown entropy current next := by
  simp only [completion, bind_eq_ok] at h
  obtain ⟨current, hroutine, h⟩ := h
  refine ⟨current, hroutine, ?_⟩
  split at h
  · exact showCompletion_of_ok hroutine h
  · split at h
    · rename_i hquiet
      simp only [Bool.and_eq_true, beq_iff_eq] at hquiet
      simp only [bind_eq_ok, rolledUp] at h
      obtain ⟨rolled, hrolled, h⟩ := h
      split at hrolled
      · rcases healthy_of_ok hroutine hrolled with rfl | ⟨hrolls, rfl⟩
        · cases h
          exact .quiet hquiet.1
        · cases h
          exact .rolled hquiet.1 hrolls
      · cases hrolled
        cases h
        exact .quiet hquiet.1
    · exact completed_of_tell_same hroutine h

theorem completedRun_of_ok {value} (hrun : run state runId = .ok value)
    (h : completedRun state value now shown entropy = .ok next) :
    ∃ told, completion state value (completed value) now shown entropy = .ok told ∧
      next = ended (dropRun told runId) value now := by
  simp only [completedRun, bind_eq_ok, withoutRun_eq_ok] at h
  obtain ⟨told, hcompletion, found, hfound, rfl⟩ := h
  obtain ⟨current, -, hcompleted⟩ := completion_of_ok hcompletion
  obtain ⟨-, rfl⟩ := run_mem hrun
  rw [hcompleted.onlyTells.run_eq, hrun] at hfound
  cases hfound
  exact ⟨told, hcompletion, rfl⟩

theorem finish_of_ok {lease} (h : finish state runId lease now shown entropy = .ok next) :
    ∃ value current told, run state runId = .ok value ∧ Drives value lease now ∧
      routine state value.routineId = .ok current ∧ Completed state value now shown entropy current told ∧
      next = ended (dropRun told runId) value now := by
  simp only [finish, bind_eq_ok, liveLease_eq_ok] at h
  obtain ⟨value, ⟨hrun, hdrives⟩, h⟩ := h
  obtain ⟨told, hcompletion, rfl⟩ := completedRun_of_ok hrun h
  obtain ⟨current, hroutine, hcompleted⟩ := completion_of_ok hcompletion
  exact ⟨value, current, told, hrun, hdrives, hroutine, hcompleted, rfl⟩

theorem completeRecovered_of_ok {leaseSha256}
    (h : completeRecovered state runId leaseSha256 now shown entropy = .ok next) :
    ∃ value current told, run state runId = .ok value ∧ value.status = .leased ∧
      value.leaseSha256 = leaseSha256 ∧ routine state value.routineId = .ok current ∧
      Completed state value now shown entropy current told ∧ next = ended (dropRun told runId) value now := by
  simp only [completeRecovered, bind_eq_ok, readLease_eq_ok] at h
  obtain ⟨value, ⟨hrun, hstatus, hdigest⟩, h⟩ := h
  obtain ⟨told, hcompletion, rfl⟩ := completedRun_of_ok hrun h
  obtain ⟨current, hroutine, hcompleted⟩ := completion_of_ok hcompletion
  exact ⟨value, current, told, hrun, hstatus, hdigest, hroutine, hcompleted, rfl⟩

theorem endRun_of_ok {detail status} (h : endRun state runId now outcome detail status entropy = .ok next) :
    ∃ value current told, run state runId = .ok value ∧ (allowedOutcomes value.status).contains outcome = true ∧
      Told state value outcome now detail entropy current told ∧ next = ended (dropRun told runId) value now := by
  simp only [endRun, bind_eq_ok, guard_eq_ok, withoutRun_eq_ok] at h
  obtain ⟨value, hrun, -, hallowed, ⟨told, versioned⟩, htold, found, hfound, rfl⟩ := h
  obtain ⟨rfl, current, htold⟩ := told_of_ok htold
  rw [htold.onlyTells.run_eq, hrun] at hfound
  cases hfound
  exact ⟨value, current, told, hrun, by simpa using hallowed, htold, rfl⟩

end

structure Claimable (state : TeamRoutines) (now : Int) (long : Bool) (due : Routine) : Prop where
  listed : due ∈ state.routines
  notices : state.notices.length < maxUndeliveredNotices
  discards : state.discards.length < maxRoutines
  incidents : (unresolvedRuns state).length + ((liveRuns state).length + 1) ≤
    maxUnresolvedIncidents
  records : state.runs.length < maxRuns
  unleased : ∀ item ∈ state.runs, item.status ≠ .leased
  confirmed : due.needsReconfirm = false
  kept : due.deleting = false
  unpaused : due.paused = false
  idle : ∀ item ∈ state.runs, item.status.live = true ∨ item.status = .unresolved → item.routineId ≠ due.routineId
  admitsLong : long = true ∨ longRun (runUnits due) = false
  isDue : dueAt due ≤ now
  isFree : freeAt state due now ≤ now

theorem oldest_mem {items} (h : oldest items = some value) : value ∈ items := by
  cases items with
  | nil => cases h
  | cons item rest =>
    obtain rfl := Option.some.inj h
    induction rest generalizing item with
    | nil => simp
    | cons other rest ih =>
      rw [foldl_cons]
      split
      · exact mem_cons_of_mem _ (ih other rfl)
      · rcases mem_cons.mp (ih item rfl) with heq | hmem
        · rw [heq]
          exact mem_cons_self
        · exact mem_cons_of_mem _ (mem_cons_of_mem _ hmem)

theorem claimable_of_some {long} (h : claimable state now long = some due) : Claimable state now long due := by
  unfold claimable at h
  split at h
  · cases h
  · rename_i hpressure
    simp only [Bool.or_eq_true, not_or, backpressured, segmentLeased, undelivered, decide_eq_true_eq,
      Bool.not_eq_true', incidentCapacity, Bool.not_eq_false, Bool.and_eq_true, not_le,
      any_eq_true, beq_iff_eq, not_exists, not_and] at hpressure
    obtain ⟨⟨⟨hnotices, hdiscards⟩, hincidents, hrecords⟩, hunleased⟩ := hpressure
    obtain ⟨hready, hdue⟩ := mem_filter.mp (oldest_mem h)
    obtain ⟨hlisted, hguards⟩ := mem_filter.mp hready
    simp only [Bool.and_eq_true, Bool.not_eq_true', decide_eq_true_eq] at hguards hdue
    obtain ⟨⟨⟨⟨hconfirmed, hkept⟩, hunpaused⟩, hidle⟩, hlong⟩ := hguards
    refine ⟨hlisted, not_le.mp fun hle => hnotices (decide_eq_true hle),
      hdiscards, hincidents, hrecords,
      hunleased, hconfirmed, hkept, hunpaused, ?_, by simpa using hlong, hdue.1, hdue.2⟩
    intro item hitem hbusy heq
    rw [← Bool.not_eq_true, contains_iff_mem] at hidle
    refine hidle ?_
    rw [busy, mem_append, mem_map, mem_map]
    rcases hbusy with hlive | hunresolved
    · exact .inl ⟨item, mem_filter.mpr ⟨hitem, hlive⟩, heq⟩
    · exact .inr ⟨item, mem_filter.mpr ⟨hitem, by simp [hunresolved]⟩, heq⟩

variable [Platform]

def gapNotice (value : Routine) (now : Int) : Notice :=
  { noticeId := gapNoticeId value, routineId := value.routineId, runId := "", outcome := "skipped",
    createdAt := now, detail := objectOf [("missed", int value.missed)], version := value.missed }

def reportedForm (value : Routine) : Routine := { value with reportedMissed := value.missed }

/-- Whether a gap's misses may be reported now. -/
def mayReport (state : TeamRoutines) (value : Routine) (inFlight : Bool) : Bool :=
  (state.notices.any fun item => item.noticeId == gapNoticeId value) || inFlight ||
    undelivered state < maxUndeliveredNotices

inductive Reported (state : TeamRoutines) (value : Routine) (now : Int) (inFlight : Bool) :
    TeamRoutines → Prop where
  | nothing (hnothing : value.missed = value.reportedMissed) :
      Reported state value now inFlight state
  | noRoom (hmissed : value.missed ≠ value.reportedMissed)
      (hroom : mayReport state value inFlight = false) : Reported state value now inFlight state
  | reported {current : Routine} (hmissed : value.missed ≠ value.reportedMissed)
      (hroom : mayReport state value inFlight = true)
      (hroutine : routine state value.routineId = .ok current)
      (hput : Publishable state (gapNotice value now)) :
      Reported state value now inFlight
        (replaceRoutine (publish state ((gapNotice value now).named current)) (reportedForm value))

theorem reported_of_ok (h : reportGap state value now inFlight = .ok next) :
    Reported state value now inFlight next := by
  unfold reportGap at h
  by_cases hmissed : value.missed = value.reportedMissed
  · rw [if_pos (by simpa using hmissed)] at h
    cases h
    exact .nothing hmissed
  · rw [if_neg (by simpa using hmissed)] at h
    cases hroom : mayReport state value inFlight with
    | false =>
      have hroom' := hroom
      unfold mayReport at hroom'
      simp only [hroom', Bool.not_false, if_true] at h
      cases h
      exact .noRoom hmissed hroom
    | true =>
      have hroom' := hroom
      unfold mayReport at hroom'
      simp only [hroom', Bool.not_true, Bool.false_eq_true, if_false, bind_eq_ok] at h
      obtain ⟨_, hput, hnext⟩ := h
      obtain ⟨current, hcurrent, hadmits, rfl⟩ := (putNotice_eq_ok rfl).mp hput
      cases hnext
      exact .reported hmissed hroom hcurrent hadmits

/-- What sweeping one Routine does: nothing to a continuous one, else the misses before the cutoff
and their report. -/
inductive SweptRoutine (state : TeamRoutines) (item : Routine) (now : Int) : TeamRoutines → Prop where
  | continuous (hcontinuous : continuous item = true) : SweptRoutine state item now state
  | current (hscheduled : continuous item = false)
      (hcurrent : now - graceSeconds item ≤ item.nextRunAt) {next : TeamRoutines}
      (hreport : Reported state item now false next) : SweptRoutine state item now next
  | late (hscheduled : continuous item = false)
      (hlate : item.nextRunAt < now - graceSeconds item) {count first : Int}
      (hcount : countBefore item item.nextRunAt (now - graceSeconds item) = .ok (count, first))
      {next} (hreport : Reported (replaceRoutine state (miss item item.nextRunAt count first))
        (miss item item.nextRunAt count first) now false next) : SweptRoutine state item now next

theorem sweptRoutine_of_ok (h : sweepRoutine state item now = .ok next) : SweptRoutine state item now next := by
  unfold sweepRoutine at h
  cases hcontinuous : continuous item with
  | true =>
    rw [if_pos hcontinuous] at h
    cases h
    exact .continuous hcontinuous
  | false =>
    rw [if_neg (by simp [hcontinuous])] at h
    by_cases hlate : item.nextRunAt < now - graceSeconds item
    · simp only [hlate, if_true, bind_eq_ok] at h
      obtain ⟨⟨count, first⟩, hcount, hreport⟩ := h
      exact .late hcontinuous hlate hcount (reported_of_ok hreport)
    · simp only [hlate, if_false] at h
      exact .current hcontinuous (not_lt.mp hlate) (reported_of_ok h)

theorem sweepFrom_nil_eq_ok : sweepFrom now state [] = .ok next ↔ next = state := by
  simp [sweepFrom, eq_comm]

theorem sweepFrom_cons_eq_ok {rest} : sweepFrom now state (item :: rest) = .ok next ↔
      ∃ swept, sweepRoutine state item now = .ok swept ∧ sweepFrom now swept rest = .ok next := by
  simp only [sweepFrom, bind_eq_ok]

theorem Reported.onlyTells (h : Reported state value now inFlight next) : OnlyTells state next := by
  cases h with
  | nothing | noRoom => exact .refl _
  | reported => exact (onlyTells_publish _ _).trans (onlyTells_replaceRoutine _ _)

theorem SweptRoutine.onlyTells (h : SweptRoutine state item now next) : OnlyTells state next := by
  cases h with
  | continuous => exact .refl _
  | current _ _ hreport => exact hreport.onlyTells
  | late _ _ _ hreport => exact (onlyTells_replaceRoutine _ _).trans hreport.onlyTells

theorem sweepFrom_onlyTells {items} (h : sweepFrom now state items = .ok next) : OnlyTells state next := by
  induction items generalizing state with
  | nil =>
    obtain rfl := sweepFrom_nil_eq_ok.mp h
    exact .refl _
  | cons item rest ih =>
    obtain ⟨swept, hswept, hrest⟩ := sweepFrom_cons_eq_ok.mp h
    exact (sweptRoutine_of_ok hswept).onlyTells.trans (ih hrest)

theorem sweep_onlyTells (h : sweep state now = .ok next) : OnlyTells state next :=
  sweepFrom_onlyTells h

def leasedForm (id token : String) (due : Routine) (now : Int) (keyFingerprint : String) : Run :=
  { runId := id, routineId := due.routineId, status := .leased, leaseSha256 := leaseSha256 token,
    leaseKey := keyFingerprint, leaseExpiresAt := now + startLeaseSeconds,
    activeSecondsLeft := activeSeconds (runUnits due), revision := due.revision }

def startRun (state : TeamRoutines) (started : Run) (units now : Int) : TeamRoutines :=
  { state with
    starts := Routines.started state.starts started.routineId now units, servedAt := now,
    runs := state.runs ++ [started] }

theorem lease_of_ok {keyFingerprint claimed} (h : lease state due now keyFingerprint entropy = .ok (next, claimed)) :
    ∃ token id, newToken entropy = .ok token ∧ newId entropy = .ok id ∧
      claimed.run = leasedForm id token due now keyFingerprint ∧ claimed.leaseToken = token ∧ next = replaceRoutine
        (startRun state (leasedForm id token due now keyFingerprint) (runUnits due) now) due := by
  simp only [lease, bind_eq_ok, Except.ok.injEq, Prod.mk.injEq] at h
  obtain ⟨token, htoken, id, hid, rfl, rfl⟩ := h
  exact ⟨token, id, htoken, hid, rfl, rfl, rfl⟩

theorem countFrom_congr {left right} (h : ∀ after, nextAfter left after = nextAfter right after)
    (limit fuel count current) :
    countFrom left limit fuel count current = countFrom right limit fuel count current := by
  induction fuel generalizing count current with
  | zero => rfl
  | succ fuel ih => simp only [countFrom, h, ih]

theorem countBefore_congr {left right} (h : ∀ after, nextAfter left after = nextAfter right after) (first limit) :
    countBefore left first limit = countBefore right first limit := by
  simp only [countBefore, countFrom_congr h, h]

/-- A Routine with no Rodar pending. -/
def unrequested (value : Routine) : Routine := { value with runRequested := 0 }

theorem countBefore_unrequested (value first limit) :
    countBefore (unrequested value) first limit = countBefore value first limit := by
  have hsame : ∀ after, nextAfter (unrequested value) after = nextAfter value after := fun _ => rfl
  exact countBefore_congr hsame first limit

/-- What serving a firing at `now` makes of the Routine. -/
inductive Served (due : Routine) (now : Int) : Routine → Prop where
  | continuous {next : Int} (hcontinuous : continuous due = true)
      (hnext : nextAfter due now = .ok next) :
      Served due now { unrequested due with nextRunAt := next }
  | onTime {following next} (hscheduled : continuous due = false)
      (hfollowing : nextAfter due due.nextRunAt = .ok following)
      (hcount : countBefore due following (now + 1) = .ok (0, next)) :
      Served due now { unrequested due with nextRunAt := next }
  | late {following extra next} (hscheduled : continuous due = false)
      (hfollowing : nextAfter due due.nextRunAt = .ok following)
      (hcount : countBefore due following (now + 1) = .ok (extra, next)) (hextra : extra ≠ 0) :
      Served due now (miss (unrequested due) following extra next)

theorem serve_eq (due now) :
    serve due now =
      if continuous due = true then
        nextAfter due now >>= fun next => .ok { unrequested due with nextRunAt := next }
      else
        nextAfter due due.nextRunAt >>= fun following =>
          countBefore (unrequested due) following (now + 1) >>= fun (extra, next) =>
            .ok (if extra == 0 then { unrequested due with nextRunAt := next }
              else miss (unrequested due) following extra next) :=
  rfl

theorem served_of_ok {served} (h : serve due now = .ok served) : Served due now served := by
  rw [serve_eq] at h
  cases hcontinuous : continuous due with
  | true =>
    rw [if_pos hcontinuous] at h
    obtain ⟨next, hnext, h⟩ := bind_eq_ok.mp h
    cases h
    exact .continuous hcontinuous hnext
  | false =>
    rw [if_neg (by simp [hcontinuous])] at h
    simp only [bind_eq_ok] at h
    obtain ⟨following, hfollowing, ⟨extra, next⟩, hcount, h⟩ := h
    cases h
    rw [countBefore_unrequested] at hcount
    by_cases hextra : extra = 0
    · subst hextra
      exact .onTime hcontinuous hfollowing hcount
    · rw [if_neg (by simpa using hextra)]
      exact .late hcontinuous hfollowing hcount hextra

theorem Served.routineId {served} (h : Served due now served) : served.routineId = due.routineId := by
  cases h <;> rfl

def clearedForm (value : Routine) : Routine :=
  { value with gapStartedAt := 0, missed := 0, reportedMissed := 0 }

/-- What a claim does once the sweep is done, and what it returns: nothing, a person's Rodar, or a
firing. -/
inductive Claimed (state : TeamRoutines) (now : Int) (keyFingerprint : String) (long : Bool)
    (entropy : Entropy) : Option Claim → TeamRoutines → Prop where
  | idle (hnone : claimable state now long = none) :
      Claimed state now keyFingerprint long entropy none state
  | requested {due token id claim} (hsome : claimable state now long = some due)
      (hrequested : due.runRequested ≠ 0) (hbefore : now < due.nextRunAt)
      (htoken : newToken entropy = .ok token) (hid : newId entropy = .ok id)
      (hclaim : claim.run = leasedForm id token due now keyFingerprint) :
      Claimed state now keyFingerprint long entropy (some claim) (replaceRoutine
          (startRun state (leasedForm id token due now keyFingerprint) (runUnits due) now)
          (unrequested due))
  | fired {due served token id} {claim : Claim} {reported}
      (hsome : claimable state now long = some due)
      (hfired : due.runRequested = 0 ∨ due.nextRunAt ≤ now) (hserve : Served due now served)
      (hreport : Reported (replaceRoutine state served) served now true reported)
      (htoken : newToken entropy = .ok token) (hid : newId entropy = .ok id)
      (hclaim : claim.run = leasedForm id token served now keyFingerprint) :
      Claimed state now keyFingerprint long entropy (some claim) (replaceRoutine
          (startRun reported (leasedForm id token served now keyFingerprint) (runUnits served) now)
          (clearedForm served))

theorem reported_routine (h : Reported state value now inFlight next)
    (hroutine : routine state value.routineId = .ok value)
    (hcurrent : routine next value.routineId = .ok current) : clearedForm current = clearedForm value := by
  cases h with
  | nothing | noRoom =>
    obtain rfl := Except.ok.inj (hroutine.symm.trans hcurrent)
    rfl
  | reported _ _ hfound =>
    have hself {notice : Notice} :
        routine (replaceRoutine (publish state notice) (reportedForm value)) value.routineId =
          .ok (reportedForm value) :=
      routine_replaceRoutine_self ((routine_publish notice _).trans hfound) rfl
    obtain rfl := Except.ok.inj (hself.symm.trans hcurrent)
    rfl

theorem claimed_of_ok {keyFingerprint long claimed}
    (h : claim state now keyFingerprint long entropy = .ok (next, claimed)) :
    sha256Re keyFingerprint = true ∧ ∃ swept, sweep state now = .ok swept ∧
      Claimed swept now keyFingerprint long entropy claimed next := by
  unfold claim at h
  split at h
  · cases h
  · rename_i hkey
    refine ⟨by simpa using hkey, ?_⟩
    obtain ⟨swept, hswept, h⟩ := bind_eq_ok.mp h
    refine ⟨swept, hswept, ?_⟩
    split at h
    · rename_i hnone
      cases h
      exact .idle hnone
    · rename_i due hsome
      split at h
      · rename_i hrequested
        simp only [Bool.and_eq_true, bne_iff_ne, decide_eq_true_eq] at hrequested
        simp only [bind_eq_ok, Except.ok.injEq, Prod.mk.injEq] at h
        obtain ⟨⟨leased, claim⟩, hlease, rfl, rfl⟩ := h
        obtain ⟨token, id, htoken, hid, hclaim, -, rfl⟩ := lease_of_ok hlease
        exact .requested hsome hrequested.1 hrequested.2 htoken hid hclaim
      · rename_i hfired
        have hfired' : due.runRequested = 0 ∨ due.nextRunAt ≤ now := by
          simp only [Bool.and_eq_true, bne_iff_ne, decide_eq_true_eq, not_and, not_lt] at hfired
          exact or_iff_not_imp_left.mpr hfired
        simp only [bind_eq_ok, Except.ok.injEq, Prod.mk.injEq] at h
        obtain ⟨served, hserve, reported, hreported, current, hcurrent, ⟨leased, claim⟩, hlease, rfl, rfl⟩ := h
        obtain ⟨token, id, htoken, hid, hclaim, -, rfl⟩ := lease_of_ok hlease
        have hreport := reported_of_ok hreported
        have hlisted := (claimable_of_some hsome).listed
        obtain ⟨found, hfound⟩ := routine_of_mem hlisted
        have hid' := (served_of_ok hserve).routineId
        have hserved : routine (replaceRoutine swept served) served.routineId = .ok served :=
          routine_replaceRoutine_self (hid' ▸ hfound) rfl
        have hcleared := reported_routine hreport hserved hcurrent
        have hclaimed : claim.run = leasedForm id token (clearedForm served) now keyFingerprint := by
          rw [← hcleared]
          exact hclaim
        have hresult : Claimed swept now keyFingerprint long entropy (some claim)
            (replaceRoutine
              (startRun reported (leasedForm id token (clearedForm served) now keyFingerprint)
                (runUnits (clearedForm served)) now) (clearedForm served)) :=
          @Claimed.fired _ _ _ _ _ _ _ served _ _ _ _ hsome hfired' (served_of_ok hserve) hreport
            htoken hid hclaimed
        rw [← hcleared] at hresult
        exact hresult

end ShimpzTeams.Routines
