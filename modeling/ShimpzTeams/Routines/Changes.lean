import ShimpzTeams.Routines.Steps

/-!
# How a call changes a state

Every applied call keeps the Routines, adds one, removes one, edits one, or sweeps
them all; it keeps the run records, starts one, edits one, or removes one, and queues
the removals that go with it. Every call but a claim keeps the starts, and the notices
any call leaves are of distinct ids and within the Team's bound. Later modules read
their invariants, and a run's whole life, off this one relation.
-/

namespace ShimpzTeams.Routines

open StrictJson Protocol Library

section

variable {state next : TeamRoutines} {entropy : Entropy} {now : Int}
variable {current updated : Routine} {outcome : String} {value : Run} {detail : Value}

section

variable {told : TeamRoutines} (htold : told.routines = replaceFirst Routine.routineId updated state.routines)
  (hroutine : routine state value.routineId = .ok current) (hid : updated.routineId = value.routineId)

include htold hroutine hid

theorem ended_routines : (ended told value now).routines =
      replaceFirst Routine.routineId (rebased now updated) state.routines := by
  have hupdated : routine told value.routineId = .ok updated := by
    rw [routine_eq_ok, htold]
    exact find?_replaceFirst_self (routine_eq_ok.mp hroutine) hid
  rw [ended_of_routine hupdated, replaceRoutine_routines]
  unfold queue
  rw [htold]
  exact replaceFirst_replaceFirst (rebased_routineId updated)

theorem dropped_routines {runId} : (ended (dropRun told runId) value now).routines =
      replaceFirst Routine.routineId (rebased now updated) state.routines := by
  have hdropped : (dropRun told runId).routines = replaceFirst Routine.routineId updated state.routines := htold
  exact ended_routines hdropped hroutine hid

end

theorem not_counts_told :
    counts "frozen" = false ∧ counts "held" = false ∧ counts "user-skipped" = false ∧ counts "paused" = false := by
  decide

variable [Platform]

def countedForm (current : Routine) (outcome : String) : Routine :=
  if counts outcome then (streaked current outcome).1 else current

inductive CompletedTo (value : Run) (now : Int) (shown : Option Value) (current : Routine) :
    Routine → Prop where
  | quiet (hunnoticed : value.noticeVersion = 0) :
      CompletedTo value now shown current { current with failures := 0 }
  | rolled (hunnoticed : value.noticeVersion = 0) (hcontinuous : continuous current = true)
      (hforward : current.rollupMinute ≤ minuteOf now)
      (hwithin : rolledRuns current now ≤ maxRollupRuns) :
      CompletedTo value now shown current (rolledForm current value now)
  | told {digest} (hdigest : DigestFrom current shown digest) :
      CompletedTo value now shown current { current with outputDigest := digest, failures := 0 }

inductive RoutineEdit (state : TeamRoutines) : Call → Routine → Routine → Prop where
  | updated {value current expectedRevision now entropy}
      (hchangeable : Changeable state value.routineId expectedRevision current)
      (hdefined : Defined value (current.revision + 1))
      (hfirst : firstRun (definedForm value (current.revision + 1)) = .ok value.nextRunAt)
      (hbudgets : budgets (others state current.routineId) (admittedForm value (current.revision + 1)) = .ok ()) :
      RoutineEdit state ⟨.update value expectedRevision now, entropy⟩ current
        (updatedForm value current)
  | refined {value current expectedRevision now entropy}
      (hchangeable : Changeable state value.routineId expectedRevision current)
      (hzone : value.timezone = current.timezone)
      (hdefined : Defined (refinedBase value current) (current.revision + 1))
      (hbudgets : budgets (others state current.routineId) (refinedForm value current) = .ok ()) :
      RoutineEdit state ⟨.refine value expectedRevision now, entropy⟩ current
        (refinedForm value current)
  | paused {current paused entropy} (hkept : current.deleting = false) :
      RoutineEdit state ⟨.setPaused current.routineId paused, entropy⟩ current
        (pausedForm paused current)
  | deleting {current : Routine} {entropy} :
      RoutineEdit state ⟨.beginDelete current.routineId, entropy⟩ current
        { current with deleting := true }
  | reconfirm {current : Routine} {now entropy} :
      RoutineEdit state ⟨.markScopeChanged current.routineId now, entropy⟩ current
        { current with needsReconfirm := true }
  | settled {current value now step entropy}
      (hrun : run state value.runId = .ok value) (hroutine : current.routineId = value.routineId) :
      RoutineEdit state ⟨.settleHold value.runId now step, entropy⟩ current (rebased now current)
  | ended {current value now outcome detail status entropy} (hrun : run state value.runId = .ok value)
      (hallowed : (allowedOutcomes value.status).contains outcome = true)
      (hroutine : current.routineId = value.routineId) :
      RoutineEdit state ⟨.endRun value.runId now outcome detail status, entropy⟩ current
        (rebased now (countedForm current outcome))
  | finished {current updated value lease now shown entropy} (hrun : run state value.runId = .ok value)
      (hdrives : Drives value lease now) (hroutine : current.routineId = value.routineId)
      (hcompleted : CompletedTo value now shown current updated) :
      RoutineEdit state ⟨.finish value.runId lease now shown, entropy⟩ current (rebased now updated)
  | recovered {current updated value now shown entropy} (hrun : run state value.runId = .ok value)
      (hstatus : value.status = .leased) (hroutine : current.routineId = value.routineId)
      (hcompleted : CompletedTo value now shown current updated) :
      RoutineEdit state ⟨.completeRecovered value.runId value.leaseSha256 now shown, entropy⟩
        current (rebased now updated)
  | rerun {current incidentId now expected entropy} (hkept : current.deleting = false) :
      RoutineEdit state ⟨.runIncident incidentId now expected, entropy⟩ current
        { pausedForm false current with runRequested := now }
  | incidentPaused {current incidentId now reason entropy} (hkept : current.deleting = false) :
      RoutineEdit state ⟨.pauseIncident incidentId now reason, entropy⟩ current
        (pausedForm true current)

inductive RoutinesChange (state : TeamRoutines) : Call → List Routine → Prop where
  | kept {call : Call} : RoutinesChange state call state.routines
  | created {value now usage steps entropy} (hadded : Added state value) :
      RoutinesChange state ⟨.create value now usage steps, entropy⟩
        (state.routines ++ [admittedForm value 1])
  | deleted {routineId now entropy} (hidle : ∀ item ∈ state.runs, item.routineId ≠ routineId) :
      RoutinesChange state ⟨.completeDelete routineId now, entropy⟩
        (state.routines.filter fun item => item.routineId != routineId)
  | edited {call : Call} {current updated : Routine}
      (hroutine : routine state current.routineId = .ok current)
      (hedit : RoutineEdit state call current updated) :
      RoutinesChange state call (replaceFirst Routine.routineId updated state.routines)
  | swept {swept now entropy} (hswept : sweep state now = .ok swept) :
      RoutinesChange state ⟨.sweep now, entropy⟩ swept.routines
  | idle {swept now keyFingerprint long entropy} (hswept : sweep state now = .ok swept)
      (hnone : claimable swept now long = none) :
      RoutinesChange state ⟨.claim now keyFingerprint long, entropy⟩ swept.routines
  | requested {swept due now keyFingerprint long entropy} (hswept : sweep state now = .ok swept)
      (hsome : claimable swept now long = some due) (hrequested : due.runRequested ≠ 0)
      (hbefore : now < due.nextRunAt) :
      RoutinesChange state ⟨.claim now keyFingerprint long, entropy⟩
        (replaceFirst Routine.routineId (unrequested due) swept.routines)
  | fired {swept due served now keyFingerprint long entropy} (hswept : sweep state now = .ok swept)
      (hsome : claimable swept now long = some due)
      (hfired : due.runRequested = 0 ∨ due.nextRunAt ≤ now) (hserved : Served due now served) :
      RoutinesChange state ⟨.claim now keyFingerprint long, entropy⟩
        (replaceFirst Routine.routineId (clearedForm served) swept.routines)

omit [Platform] in
@[simp]
theorem countedForm_routineId (current outcome) : (countedForm current outcome).routineId = current.routineId := by
  unfold countedForm
  split <;> rfl

theorem Counted.routines {routineId} (h : Counted state current outcome now entropy next)
    (hroutine : routine state routineId = .ok current) :
    next.routines = replaceFirst Routine.routineId (countedForm current outcome) state.routines := by
  unfold countedForm
  cases h with
  | uncounted huncounted =>
    rw [huncounted]
    exact (congrArg TeamRoutines.routines (replaceRoutine_unchanged hroutine)).symm
  | counted hcounted =>
    rw [hcounted]
    rfl
  | paused hcounted =>
    rw [hcounted]
    rfl

theorem Told.routines (h : Told state value outcome now detail entropy current next) :
    next.routines = replaceFirst Routine.routineId (countedForm current outcome) state.routines :=
  h.counted.routines h.routine

theorem routine_of_told (h : Told state value outcome now detail entropy current next) :
    routine next value.routineId = .ok (countedForm current outcome) := by
  rw [routine_eq_ok, h.routines]
  refine find?_replaceFirst_self (routine_eq_ok.mp h.routine) ?_
  rw [countedForm_routineId]
  exact (routine_mem h.routine).2

omit [Platform] in
theorem countedForm_of_not_counts (h : counts outcome = false) : countedForm current outcome = current := by
  rw [countedForm, h]
  rfl

theorem Told.routines_eq (h : Told state value outcome now detail entropy current next)
    (hcounts : counts outcome = false) : next.routines = state.routines := by
  rw [h.routines, countedForm_of_not_counts hcounts]
  exact congrArg TeamRoutines.routines (replaceRoutine_unchanged h.routine)

omit [Platform] in
theorem countedForm_completed (value current) :
    countedForm current (completed value) = { current with failures := 0 } := by
  have houtcome : completed value = "done" ∨ completed value = "recovered" := by
    unfold completed
    split
    · exact .inl rfl
    · exact .inr rfl
  have hstreak : decide (maxFailureStreak ≤ 0) = false := by decide
  rcases houtcome with hdone | hrecovered
  · rw [hdone]
    simp [countedForm, counts, streaked, hstreak]
  · rw [hrecovered]
    simp [countedForm, counts, streaked, hstreak]

variable {shown : Option Value}

theorem Completed.routines (h : Completed state value now shown entropy current next) :
    ∃ updated, CompletedTo value now shown current updated ∧
      next.routines = replaceFirst Routine.routineId updated state.routines := by
  cases h with
  | quiet hunnoticed => exact ⟨_, .quiet hunnoticed, rfl⟩
  | rolled hunnoticed hrolls =>
    exact ⟨_, .rolled hunnoticed hrolls.continuous hrolls.forward hrolls.within, rfl⟩
  | @told digest _ _ hdigest htold =>
    refine ⟨_, .told hdigest, ?_⟩
    rw [htold.routines, countedForm_completed, replaceRoutine_routines]
    exact replaceFirst_replaceFirst rfl

omit [Platform] in
theorem CompletedTo.routineId
    (h : CompletedTo value now shown current updated) : updated.routineId = current.routineId := by
  cases h <;> rfl

theorem skipIncident_routines {incidentId expected}
    (h : skipIncident state incidentId now expected entropy = .ok next) : next.routines = state.routines := by
  obtain ⟨value, current, told, -, -, htold, rfl⟩ := skipIncident_of_ok h
  exact htold.routines_eq not_counts_told.2.2.1

theorem settleHold_routines {runId step} (h : settleHold state runId now step entropy = .ok next) :
    ∃ value current, run state runId = .ok value ∧ routine state value.routineId = .ok current ∧
      next.routines = replaceFirst Routine.routineId (rebased now current) state.routines := by
  obtain ⟨value, current, told, hrun, -, htold, hnext⟩ := settleHold_of_ok h
  have hid : current.routineId = value.routineId := (routine_mem htold.routine).2
  have hindexed : (ended (replaceRun told (indexedForm value step)) (indexedForm value step)
      now).routines = replaceFirst Routine.routineId (rebased now current) state.routines := by
    have hcounted := htold.routines
    rw [countedForm_of_not_counts not_counts_told.2.1] at hcounted
    exact ended_routines hcounted htold.routine hid
  refine ⟨value, current, hrun, htold.routine, ?_⟩
  rcases hnext with ⟨-, rfl⟩ | ⟨-, hskip⟩
  · exact hindexed
  · rw [skipIncident_routines hskip, hindexed]

/-- Whatever a firing's report did, the cleared Routine stands in its place. -/
theorem Reported.cleared_routines {swept served} (h : Reported (replaceRoutine swept served) served now true next) :
    replaceFirst Routine.routineId (clearedForm served) next.routines =
      replaceFirst Routine.routineId (clearedForm served) swept.routines := by
  cases h with
  | nothing | noRoom => exact replaceFirst_replaceFirst rfl
  | reported =>
    have hreported : replaceFirst Routine.routineId (clearedForm served)
        (replaceFirst Routine.routineId (reportedForm served)
          (replaceFirst Routine.routineId served swept.routines)) =
        replaceFirst Routine.routineId (clearedForm served)
          (replaceFirst Routine.routineId served swept.routines) :=
      replaceFirst_replaceFirst rfl
    exact hreported.trans (replaceFirst_replaceFirst rfl)

theorem routinesChange_of_claim {keyFingerprint long claimed}
    (h : claim state now keyFingerprint long entropy = .ok (next, claimed)) :
    RoutinesChange state ⟨.claim now keyFingerprint long, entropy⟩ next.routines := by
  obtain ⟨-, swept, hswept, hclaimed⟩ := claimed_of_ok h
  cases hclaimed with
  | idle hnone => exact .idle hswept hnone
  | @requested due _ _ _ hsome hrequested hbefore =>
    have hchange : RoutinesChange state ⟨.claim now keyFingerprint long, entropy⟩
        (replaceFirst Routine.routineId (unrequested due) swept.routines) :=
      .requested hswept hsome hrequested hbefore
    exact hchange
  | fired hsome hfired hserve hreport =>
    rw [replaceRoutine_routines, startRun, hreport.cleared_routines]
    exact .fired hswept hsome hfired hserve

end

open List

/-- Notices of distinct ids, no more than a Team keeps. -/
structure Fitting (notices : List Notice) : Prop where
  distinct : (notices.map Notice.noticeId).Nodup
  within : notices.length ≤ maxUndeliveredNotices + maxRoutineNotices

theorem Fitting.filter {notices} (h : Fitting notices) (keep) : Fitting (notices.filter keep) where
  distinct := h.distinct.sublist (filter_sublist.map _)
  within := (length_filter_le _ _).trans h.within

section

variable {state middle next : TeamRoutines} {entropy : Entropy} {now : Int}

/-- What every call but a claim does to the starts and the notices. -/
structure Posted (state next : TeamRoutines) : Prop where
  starts : next.starts = state.starts
  servedAt : next.servedAt = state.servedAt
  fitting : Fitting state.notices → Fitting next.notices

theorem Posted.kept (hstarts : next.starts = state.starts)
    (hserved : next.servedAt = state.servedAt) (hnotices : next.notices = state.notices) : Posted state next :=
  ⟨hstarts, hserved, fun h => hnotices ▸ h⟩

theorem Posted.trans (h : Posted state middle) (h' : Posted middle next) : Posted state next :=
  ⟨h'.starts.trans h.starts, h'.servedAt.trans h.servedAt, fun hfit => h'.fitting (h.fitting hfit)⟩

theorem posted_replaceRoutine (state value) : Posted state (replaceRoutine state value) := .kept rfl rfl rfl

theorem posted_dropped (value runId) : Posted state (ended (dropRun state runId) value now) :=
  .kept (ended_starts value) (ended_servedAt value) (ended_notices value)

variable [Platform]

theorem Fitting.publish (h : Fitting state.notices) {notice current} (hput : Publishable state notice) :
    Fitting (publish state (notice.named current)).notices where
  distinct := by
    rw [publish_notices, map_append, nodup_append]
    refine ⟨(h.filter _).distinct, nodup_singleton _, ?_⟩
    intro id hid other hother heq
    obtain ⟨kept, hkept, rfl⟩ := mem_map.mp hid
    have hne := (mem_filter.mp hkept).2
    rw [heq, mem_singleton.mp hother] at hne
    simp at hne
  within := by
    rw [publish_notices, length_append]
    exact hput.room

theorem posted_publish {notice} (current) (hput : Publishable state notice) :
    Posted state (publish state (notice.named current)) :=
  ⟨rfl, rfl, fun h => h.publish hput⟩

section

variable {value : Run} {current : Routine}

theorem Told.posted {outcome detail} (h : Told state value outcome now detail entropy current next) : Posted state next := by
  refine (posted_publish current h.put).trans ?_
  cases h.counted with
  | uncounted => exact .kept rfl rfl rfl
  | counted => exact posted_replaceRoutine _ _
  | paused _ _ _ hput => exact (posted_replaceRoutine _ _).trans (posted_publish _ hput)

theorem Completed.posted {shown} (h : Completed state value now shown entropy current next) : Posted state next := by
  cases h with
  | quiet => exact posted_replaceRoutine _ _
  | rolled _ hrolls => exact (posted_replaceRoutine _ _).trans (posted_publish _ hrolls.put)
  | told _ htold => exact (posted_replaceRoutine _ _).trans htold.posted

theorem skipIncident_posted {incidentId expected}
    (h : skipIncident state incidentId now expected entropy = .ok next) : Posted state next := by
  obtain ⟨value, current, told, -, -, htold, rfl⟩ := skipIncident_of_ok h
  exact htold.posted.trans (.kept rfl rfl rfl)

theorem settleHold_posted {runId step}
    (h : settleHold state runId now step entropy = .ok next) : Posted state next := by
  obtain ⟨value, current, told, -, -, htold, hnext⟩ := settleHold_of_ok h
  have hended : Posted told (ended (replaceRun told (indexedForm value step))
      (indexedForm value step) now) :=
    .kept (ended_starts _) (ended_servedAt _) (ended_notices _)
  rcases hnext with ⟨-, rfl⟩ | ⟨-, hskip⟩
  · exact htold.posted.trans hended
  · exact htold.posted.trans (hended.trans (skipIncident_posted hskip))

end

theorem Reported.posted {value inFlight} (h : Reported state value now inFlight next) : Posted state next := by
  cases h with
  | nothing | noRoom => exact .kept rfl rfl rfl
  | reported _ _ _ hput => exact (posted_publish _ hput).trans (posted_replaceRoutine _ _)

theorem SweptRoutine.posted {item} (h : SweptRoutine state item now next) : Posted state next := by
  cases h with
  | continuous => exact .kept rfl rfl rfl
  | current _ _ hreport => exact hreport.posted
  | late _ _ _ hreport => exact (posted_replaceRoutine _ _).trans hreport.posted

theorem sweepFrom_posted {items} (h : sweepFrom now state items = .ok next) : Posted state next := by
  induction items generalizing state with
  | nil =>
    obtain rfl := sweepFrom_nil_eq_ok.mp h
    exact .kept rfl rfl rfl
  | cons item rest ih =>
    obtain ⟨swept, hswept, hrest⟩ := sweepFrom_cons_eq_ok.mp h
    exact (sweptRoutine_of_ok hswept).posted.trans (ih hrest)

theorem Claimed.fitting {keyFingerprint long claimed} (h : Claimed state now keyFingerprint long entropy claimed next)
    (hfitting : Fitting state.notices) : Fitting next.notices := by
  cases h with
  | idle => exact hfitting
  | requested => exact hfitting
  | fired _ _ _ hreport => exact hreport.posted.fitting hfitting

end

section

variable {state next : TeamRoutines} {call : Call}
variable {value : Run} {incidentId : String} {now : Int} {entropy : Entropy}

/-- What a started run found: its Routine listed and free, room beside the others, and no other run
leased. -/
structure Startable (state : TeamRoutines) (routineId : String) : Prop where
  listed : routineId ∈ state.routines.map Routine.routineId
  discards : state.discards.length < maxRoutines
  incidents : (unresolvedRuns state).length + ((liveRuns state).length + 1) ≤
    maxUnresolvedIncidents
  records : state.runs.length < maxRuns
  unleased : ∀ item ∈ state.runs, item.status ≠ .leased
  idle : ∀ item ∈ state.runs, item.status.live = true ∨ item.status = .unresolved → item.routineId ≠ routineId

/-- A record of an id already taken stays leased: no call reaches it. -/
def Shadowed (runs : List Run) : Prop :=
  runs.Pairwise fun earlier later => earlier.runId = later.runId → later.status = .leased

theorem run_of_incident (hshadowed : Shadowed state.runs)
    (h : incident state incidentId = .ok value) : run state incidentId = .ok value := by
  refine run_eq_ok.mpr (find?_of_find?_filter ?_ (incident_eq_ok.mp h))
  refine hshadowed.imp fun hleased heq => ?_
  simp [hleased heq, RunStatus.live]

theorem incident_of_run (h : run state incidentId = .ok value) (hlive : value.status.live = false) :
    incident state incidentId = .ok value :=
  incident_eq_ok.mpr (find?_filter_of_find? (run_eq_ok.mp h) (by simp [hlive]))

theorem Claimable.startable {swept long due}
    (h : Claimable swept now long due) (htold : OnlyTells state swept) : Startable state due.routineId := by
  obtain ⟨hruns, hdiscards, -, -, hids⟩ := htold
  refine ⟨hids ▸ mem_map_of_mem h.listed, hdiscards ▸ h.discards, ?_, hruns ▸ h.records,
    hruns ▸ h.unleased, hruns ▸ h.idle⟩
  have hincidents := h.incidents
  unfold unresolvedRuns liveRuns at hincidents ⊢
  rwa [hruns] at hincidents

theorem allowedOutcomes_status {outcome} (h : (allowedOutcomes value.status).contains outcome = true) :
    value.status = .leased ∨ value.status = .frozen := by
  cases hstatus : value.status with
  | leased => exact .inl rfl
  | frozen => exact .inr rfl
  | held | unresolved | skipped =>
    rw [hstatus] at h
    cases h

theorem routine_of_routines_eq {routineId current}
    (h : next.routines = state.routines) (hcurrent : routine next routineId = .ok current) :
    routine state routineId = .ok current := by
  rw [routine_eq_ok, ← h]
  exact routine_eq_ok.mp hcurrent

variable [Platform]

/-- What a call makes of one run record that stays and queues nothing. -/
inductive RunEdit : Call → Run → Run → Prop where
  | bound {value lease now networkId entropy} (hdrives : Drives value lease now)
      (hsafe : safeIdRe (boundGeneration value networkId) = true)
      (hnetwork : networkOf (boundGeneration value networkId) value.runId = some networkId) :
      RunEdit ⟨.bindGeneration value.runId lease now networkId, entropy⟩ value
        (boundForm value networkId now)
  | spent {value lease now elapsed entropy}
      (hdrives : Drives value lease now) (hseconds : 0 ≤ elapsed.1)
      (hmilliseconds : 0 ≤ elapsed.2) :
      RunEdit ⟨.spend value.runId lease now elapsed, entropy⟩ value
        (spentForm value elapsed.1 elapsed.2)
  | unprotected {value : Run} {entropy} :
      RunEdit ⟨.loseProtection value.runId, entropy⟩ value { value with protectionLost := true }
  | frozen {value lease now request current entropy} (hdrives : Drives value lease now)
      (hfreezable : Freezable current request) (hversion : 1 ≤ (versioned value).noticeVersion) :
      RunEdit ⟨.freeze value.runId lease now request, entropy⟩ value (frozenForm value request)
  | thawed {value now requestsUsed token entropy}
      (hstatus : value.status = .frozen) (htoken : newToken entropy = .ok token) :
      RunEdit ⟨.thaw value.runId now requestsUsed, entropy⟩ value
        (thawedForm value token now requestsUsed)
  | fenced {value lease now entropy}
      (hdrives : Drives value lease now) (hgeneration : value.generation ≠ "") :
      RunEdit ⟨.fence value.runId lease now, entropy⟩ value (fencedForm value)
  | recovered {value : Run} {entropy} (hstatus : value.status = .leased)
      (hgeneration : value.generation ≠ "") :
      RunEdit ⟨.holdRecovered value.runId value.leaseSha256, entropy⟩ value (fencedForm value)
  | incidentSpent {value seconds entropy} (hlive : value.status.live = false) :
      RunEdit ⟨.spendIncident value.runId seconds, entropy⟩ value
        { value with activeSecondsLeft := max (wrap64 (value.activeSecondsLeft - seconds)) 0 }
  | skipped {value now expected entropy}
      (hstatus : value.status = .unresolved) (hversion : 1 ≤ (versioned value).noticeVersion) :
      RunEdit ⟨.skipIncident value.runId now expected, entropy⟩ value (skippedForm value)
  | rerun {value now expected entropy}
      (hstatus : value.status = .unresolved) (hversion : 1 ≤ (versioned value).noticeVersion) :
      RunEdit ⟨.runIncident value.runId now expected, entropy⟩ value (skippedForm value)
  | paused {value now reason entropy}
      (hstatus : value.status = .unresolved) (hversion : 1 ≤ (versioned value).noticeVersion) :
      RunEdit ⟨.pauseIncident value.runId now reason, entropy⟩ value (versioned value)

theorem RunEdit.runId {updated} (h : RunEdit call value updated) : updated.runId = value.runId := by
  cases h <;> rfl

/-- The run records and the queued removals an applied call leaves. -/
inductive RunsChange (state : TeamRoutines) :
    Call → List Run → List (String × String) → Prop where
  | kept {call : Call} (hreopens : call.reopens = none) :
      RunsChange state call state.runs state.discards
  | discarded {runId generation entropy} :
      RunsChange state ⟨.discarded runId generation, entropy⟩ state.runs
        (state.discards.filter fun held => !(held.1 == runId && held.2 == generation))
  | started {swept due now keyFingerprint id token long entropy} (hkey : sha256Re keyFingerprint = true)
      (hswept : sweep state now = .ok swept) (hsome : claimable swept now long = some due)
      (hstartable : Startable state due.routineId) (htoken : newToken entropy = .ok token)
      (hid : newId entropy = .ok id) :
      RunsChange state ⟨.claim now keyFingerprint long, entropy⟩
        (state.runs ++ [leasedForm id token due now keyFingerprint]) state.discards
  | edited {call : Call} {value updated} (hrun : run state value.runId = .ok value)
      (hedit : RunEdit call value updated) :
      RunsChange state call (replaceFirst Run.runId updated state.runs) state.discards
  | indexed {value now step entropy}
      (hrun : run state value.runId = .ok value) (hstatus : value.status = .held)
      (hversion : 1 ≤ (versioned value).noticeVersion) :
      RunsChange state ⟨.settleHold value.runId now step, entropy⟩
        (replaceFirst Run.runId (indexedForm value step) state.runs)
        (state.discards ++ [(value.runId, value.generation)])
  | setAside {value now step entropy}
      (hrun : run state value.runId = .ok value) (hstatus : value.status = .held)
      (hversion : 1 ≤ (versioned value).noticeVersion)
      (hskipped : 1 ≤ (skippedForm (indexedForm value step)).noticeVersion) :
      RunsChange state ⟨.settleHold value.runId now step, entropy⟩
        (replaceFirst Run.runId (skippedForm (indexedForm value step)) state.runs)
        (state.discards ++ [(value.runId, value.generation)])
  | reopened {value current now generation token entropy} (hrun : run state value.runId = .ok value)
      (hstatus : value.status = .unresolved)
      (hreopenable : Reopenable state value current generation)
      (htoken : newToken entropy = .ok token) :
      RunsChange state ⟨.reopenIncident value.runId now generation, entropy⟩
        (replaceFirst Run.runId (reopenedForm value token now generation) state.runs)
        (if state.discards.contains (value.runId, value.generation) then state.discards
          else state.discards ++ [(value.runId, value.generation)])
  | ended {call : Call} {value} (hreopens : call.reopens = none)
      (hrun : run state value.runId = .ok value)
      (hstatus : value.status = .leased ∨ value.status = .frozen) :
      RunsChange state call (state.runs.filter fun item => item.runId != value.runId)
        (state.discards ++ [(value.runId, value.generation)])
  | released {value : Run} {entropy} (hrun : run state value.runId = .ok value)
      (hstatus : value.status = .skipped) :
      RunsChange state ⟨.releaseIncident value.runId, entropy⟩
        (state.runs.filter fun item => item.runId != value.runId) state.discards

variable {runId : String}

theorem RunsChange.of_told {told updated}
    (hrun : run state runId = .ok value) (htold : OnlyTells state told) (hedit : RunEdit call value updated) :
    RunsChange state call (replaceRun told updated).runs (replaceRun told updated).discards := by
  obtain ⟨-, rfl⟩ := run_mem hrun
  rw [replaceRun_runs, replaceRun_discards, htold.runs, htold.discards]
  exact .edited hrun hedit

theorem RunsChange.of_ended {told} (hrun : run state runId = .ok value) (htold : OnlyTells state told)
    (hstatus : value.status = .leased ∨ value.status = .frozen) (hreopens : call.reopens = none) :
    RunsChange state call (Routines.ended (dropRun told runId) value now).runs
      (Routines.ended (dropRun told runId) value now).discards := by
  obtain ⟨-, rfl⟩ := run_mem hrun
  rw [ended_runs, ended_discards]
  unfold dropRun
  rw [htold.runs, htold.discards]
  exact .ended hreopens hrun hstatus

theorem Served.leasedForm {due served} (h : Served due now served) (id token keyFingerprint) :
    leasedForm id token served now keyFingerprint = leasedForm id token due now keyFingerprint := by
  cases h <;> rfl

theorem Claimed.runsChange {swept keyFingerprint long}
    (hkey : sha256Re keyFingerprint = true) {claimed} (hswept : sweep state now = .ok swept)
    (h : Claimed swept now keyFingerprint long entropy claimed next) :
    RunsChange state ⟨.claim now keyFingerprint long, entropy⟩ next.runs next.discards := by
  have htold := sweep_onlyTells hswept
  cases h with
  | idle =>
    rw [htold.runs, htold.discards]
    exact .kept rfl
  | requested hsome _ _ htoken hid =>
    rw [replaceRoutine_runs, replaceRoutine_discards, startRun, htold.runs, htold.discards]
    exact .started hkey hswept hsome ((claimable_of_some hsome).startable htold) htoken hid
  | fired hsome _ hserve hreport htoken hid =>
    have hreported := htold.trans ((onlyTells_replaceRoutine _ _).trans hreport.onlyTells)
    rw [replaceRoutine_runs, replaceRoutine_discards, startRun, hreported.runs, hreported.discards, hserve.leasedForm]
    exact .started hkey hswept hsome ((claimable_of_some hsome).startable htold) htoken hid

theorem runsChange_of_skip {expected} (hshadowed : Shadowed state.runs)
    (hedit : ∀ value : Run, value.runId = incidentId → value.status = .unresolved →
      1 ≤ (versioned value).noticeVersion → RunEdit call value (skippedForm value))
    (h : skipIncident state incidentId now expected entropy = .ok next) :
    RunsChange state call next.runs next.discards := by
  obtain ⟨value, current, told, hincident, hstatus, htold, rfl⟩ := skipIncident_of_ok h
  have hid := (incident_mem hincident).2.1
  exact .of_told (run_of_incident hshadowed hincident) htold.onlyTells
    (hedit value hid hstatus htold.put.version)

theorem runsChange_of_settle {step} (h : settleHold state runId now step entropy = .ok next) :
    RunsChange state ⟨.settleHold runId now step, entropy⟩ next.runs next.discards := by
  obtain ⟨value, current, told, hrun, hstatus, htold, hnext⟩ := settleHold_of_ok h
  obtain ⟨hmem, rfl⟩ := run_mem hrun
  rcases hnext with ⟨-, rfl⟩ | ⟨-, hskip⟩
  · rw [ended_runs, ended_discards, replaceRun_runs, replaceRun_discards, htold.onlyTells.runs,
      htold.onlyTells.discards]
    exact .indexed hrun hstatus htold.put.version
  · obtain ⟨found, second, retold, hincident, -, hretold, rfl⟩ := skipIncident_of_ok hskip
    have hindexed : run (ended (replaceRun told (indexedForm value step)) (indexedForm value step) now)
        value.runId = .ok (indexedForm value step) := by
      rw [run_eq_ok, ended_runs, replaceRun_runs, htold.onlyTells.runs]
      exact find?_replaceFirst_self (run_eq_ok.mp hrun) rfl
    obtain rfl := Except.ok.inj ((incident_of_run hindexed rfl).symm.trans hincident)
    rw [replaceRun_runs, replaceRun_discards, hretold.onlyTells.runs, hretold.onlyTells.discards,
      ended_runs, ended_discards, replaceRun_runs, replaceRun_discards, htold.onlyTells.runs,
      htold.onlyTells.discards, replaceFirst_replaceFirst
        (show (skippedForm (indexedForm value step)).runId = (indexedForm value step).runId from rfl)]
    exact .setAside hrun hstatus htold.put.version hretold.put.version

theorem runsChange_of_reopen {generation} (hshadowed : Shadowed state.runs)
    (h : (reopenIncident state incidentId now generation entropy).map Prod.fst = .ok next) :
    RunsChange state ⟨.reopenIncident incidentId now generation, entropy⟩ next.runs next.discards := by
  obtain ⟨value, current, token, hincident, hstatus, hreopenable, htoken, rfl⟩ := reopenIncident_of_ok h
  obtain ⟨-, rfl, -⟩ := incident_mem hincident
  rw [queueOnce_runs, queueOnce_discards]
  exact .reopened (run_of_incident hshadowed hincident) hstatus hreopenable htoken

/-- What an applied call changes: the runs and the queued removals, the Routines, and, unless it
claims, no more than the notices beside them. -/
structure Changed (state : TeamRoutines) (call : Call) (next : TeamRoutines) : Prop where
  runs : Shadowed state.runs → RunsChange state call next.runs next.discards
  routines : RoutinesChange state call next.routines
  posted : (∀ now keyFingerprint long, call.action ≠ .claim now keyFingerprint long) → Posted state next

theorem changed_of_ok (h : apply state call = .ok next) : Changed state call next := by
  obtain ⟨action, entropy⟩ := call
  cases action with
  | create value now usage steps =>
    obtain ⟨id, hadded, -, hput, rfl⟩ := create_of_ok h
    exact ⟨fun _ => .kept rfl, .created hadded,
      fun _ => (posted_publish _ hput).trans (.kept rfl rfl rfl)⟩
  | update value expectedRevision now =>
    obtain ⟨current, id, hchangeable, hdefined, hfirst, hbudgets, -, hput, rfl⟩ := update_of_ok h
    exact ⟨fun _ => .kept rfl,
      .edited (routine_self hchangeable.routine) (.updated hchangeable hdefined hfirst hbudgets),
      fun _ => (posted_publish _ hput).trans (.kept rfl rfl rfl)⟩
  | refine value expectedRevision now =>
    obtain ⟨current, id, hchangeable, hzone, hdefined, hbudgets, -, hput, rfl⟩ := refine_of_ok h
    exact ⟨fun _ => .kept rfl,
      .edited (routine_self hchangeable.routine) (.refined hchangeable hzone hdefined hbudgets),
      fun _ => (posted_publish _ hput).trans (.kept rfl rfl rfl)⟩
  | setPaused routineId paused =>
    obtain ⟨value, hroutine, hkept, rfl⟩ := setPaused_eq_ok.mp h
    obtain ⟨-, rfl⟩ := routine_mem hroutine
    exact ⟨fun _ => .kept rfl, .edited hroutine (.paused hkept), fun _ => .kept rfl rfl rfl⟩
  | beginDelete routineId =>
    obtain ⟨value, hroutine, rfl⟩ := beginDelete_of_ok h
    obtain ⟨-, rfl⟩ := routine_mem hroutine
    exact ⟨fun _ => .kept rfl, .edited hroutine .deleting, fun _ => .kept rfl rfl rfl⟩
  | completeDelete routineId now =>
    obtain ⟨value, id, -, -, hidle, -, hput, rfl⟩ := completeDelete_of_ok h
    exact ⟨fun _ => .kept rfl, .deleted hidle,
      fun _ => (posted_publish _ hput).trans (.kept rfl rfl rfl)⟩
  | markScopeChanged routineId now =>
    obtain ⟨value, id, hroutine, -, hput, rfl⟩ := markScopeChanged_of_ok h
    obtain ⟨-, rfl⟩ := routine_mem hroutine
    exact ⟨fun _ => .kept rfl, .edited hroutine .reconfirm,
      fun _ => (posted_publish _ hput).trans (.kept rfl rfl rfl)⟩
  | sweep now =>
    have htold := sweep_onlyTells h
    refine ⟨fun _ => ?_, .swept h, fun _ => sweepFrom_posted h⟩
    rw [htold.runs, htold.discards]
    exact .kept rfl
  | claim now keyFingerprint long =>
    obtain ⟨⟨result, claimed⟩, hclaim, rfl⟩ := map_eq_ok.mp h
    obtain ⟨hkey, swept, hswept, hclaimed⟩ := claimed_of_ok hclaim
    exact ⟨fun _ => hclaimed.runsChange hkey hswept, routinesChange_of_claim hclaim,
      fun hclaims => absurd rfl (hclaims now keyFingerprint long)⟩
  | bindGeneration runId lease now networkId =>
    obtain ⟨value, hrun, hdrives, hsafe, hnetwork, rfl⟩ := bindGeneration_of_ok h
    obtain ⟨-, rfl⟩ := run_mem hrun
    exact ⟨fun _ => .edited hrun (.bound hdrives hsafe hnetwork), .kept,
      fun _ => .kept rfl rfl rfl⟩
  | spend runId lease now elapsed =>
    obtain ⟨value, hrun, hdrives, hseconds, hmilliseconds, rfl⟩ := spend_of_ok h
    obtain ⟨-, rfl⟩ := run_mem hrun
    exact ⟨fun _ => .edited hrun (.spent hdrives hseconds hmilliseconds), .kept,
      fun _ => .kept rfl rfl rfl⟩
  | loseProtection runId =>
    obtain ⟨value, hrun, rfl⟩ := loseProtection_of_ok h
    obtain ⟨-, rfl⟩ := run_mem hrun
    exact ⟨fun _ => .edited hrun .unprotected, .kept, fun _ => .kept rfl rfl rfl⟩
  | freeze runId lease now request =>
    obtain ⟨value, current, told, hrun, hdrives, hfreezable, htold, rfl⟩ := freeze_of_ok h
    obtain ⟨-, rfl⟩ := run_mem hrun
    refine ⟨fun _ => .of_told hrun htold.onlyTells
      (.frozen hdrives hfreezable htold.put.version), ?_,
      fun _ => htold.posted.trans (.kept rfl rfl rfl)⟩
    rw [replaceRun_routines, htold.routines_eq not_counts_told.1]
    exact .kept
  | thaw runId now requestsUsed =>
    obtain ⟨value, current, token, hrun, hstatus, -, -, htoken, rfl⟩ := thaw_of_ok h
    obtain ⟨-, rfl⟩ := run_mem hrun
    exact ⟨fun _ => .edited hrun (.thawed hstatus htoken), .kept, fun _ => .kept rfl rfl rfl⟩
  | finish runId lease now shown =>
    obtain ⟨value, current, told, hrun, hdrives, hroutine, hcompleted, rfl⟩ := finish_of_ok h
    obtain ⟨-, rfl⟩ := run_mem hrun
    obtain ⟨-, hid⟩ := routine_mem hroutine
    obtain ⟨updated, hupdated, htold⟩ := hcompleted.routines
    refine ⟨fun _ => .of_ended hrun hcompleted.onlyTells (.inl hdrives.status) rfl, ?_,
      fun _ => hcompleted.posted.trans (posted_dropped value _)⟩
    rw [dropped_routines htold hroutine (hupdated.routineId.trans hid)]
    exact .edited (hid.symm ▸ hroutine) (.finished hrun hdrives hid hupdated)
  | endRun runId now outcome detail status =>
    obtain ⟨value, current, told, hrun, hallowed, htold, rfl⟩ := endRun_of_ok h
    obtain ⟨-, rfl⟩ := run_mem hrun
    obtain ⟨-, hid⟩ := routine_mem htold.routine
    refine ⟨fun _ => .of_ended hrun htold.onlyTells (allowedOutcomes_status hallowed) rfl, ?_,
      fun _ => htold.posted.trans (posted_dropped value _)⟩
    rw [dropped_routines htold.routines htold.routine ((countedForm_routineId _ _).trans hid)]
    exact .edited (hid.symm ▸ htold.routine) (.ended hrun hallowed hid)
  | completeRecovered runId leaseSha256 now shown =>
    obtain ⟨value, current, told, hrun, hstatus, rfl, hroutine, hcompleted, rfl⟩ := completeRecovered_of_ok h
    obtain ⟨-, rfl⟩ := run_mem hrun
    obtain ⟨-, hid⟩ := routine_mem hroutine
    obtain ⟨updated, hupdated, htold⟩ := hcompleted.routines
    refine ⟨fun _ => .of_ended hrun hcompleted.onlyTells (.inl hstatus) rfl, ?_,
      fun _ => hcompleted.posted.trans (posted_dropped value _)⟩
    rw [dropped_routines htold hroutine (hupdated.routineId.trans hid)]
    exact .edited (hid.symm ▸ hroutine) (.recovered hrun hstatus hid hupdated)
  | fence runId lease now =>
    obtain ⟨value, hrun, hdrives, hgeneration, rfl⟩ := fence_of_ok h
    obtain ⟨-, rfl⟩ := run_mem hrun
    exact ⟨fun _ => .edited hrun (.fenced hdrives hgeneration), .kept, fun _ => .kept rfl rfl rfl⟩
  | holdRecovered runId leaseSha256 =>
    obtain ⟨value, hrun, hstatus, rfl, hgeneration, rfl⟩ := holdRecovered_of_ok h
    obtain ⟨-, rfl⟩ := run_mem hrun
    exact ⟨fun _ => .edited hrun (.recovered hstatus hgeneration), .kept,
      fun _ => .kept rfl rfl rfl⟩
  | settleHold runId now step =>
    refine ⟨fun _ => runsChange_of_settle h, ?_, fun _ => settleHold_posted h⟩
    obtain ⟨value, current, hrun, hroutine, hnext⟩ := settleHold_routines h
    obtain ⟨-, rfl⟩ := run_mem hrun
    obtain ⟨-, hid⟩ := routine_mem hroutine
    rw [hnext]
    exact .edited (hid.symm ▸ hroutine) (.settled hrun hid)
  | spendIncident incidentId seconds =>
    obtain ⟨value, hincident, rfl⟩ := spendIncident_of_ok h
    obtain ⟨-, rfl, hlive⟩ := incident_mem hincident
    exact ⟨fun hshadowed => .edited (run_of_incident hshadowed hincident) (.incidentSpent hlive),
      .kept, fun _ => .kept rfl rfl rfl⟩
  | reopenIncident incidentId now generation =>
    refine ⟨fun hshadowed => runsChange_of_reopen hshadowed h, ?_, fun _ => ?_⟩
    · obtain ⟨value, current, token, -, -, -, -, rfl⟩ := reopenIncident_of_ok h
      rw [queueOnce_routines]
      exact .kept
    · obtain ⟨value, current, token, -, -, -, -, rfl⟩ := reopenIncident_of_ok h
      unfold queueOnce
      split <;> exact .kept rfl rfl rfl
  | skipIncident incidentId now expected =>
    refine ⟨fun hshadowed => ?_, skipIncident_routines h ▸ .kept, fun _ => skipIncident_posted h⟩
    refine runsChange_of_skip hshadowed (fun value hid hstatus hversion => ?_) h
    subst hid
    exact .skipped hstatus hversion
  | runIncident incidentId now expected =>
    obtain ⟨value, skipped, current, -, hskip, hcurrent, hkept, rfl⟩ := runIncident_of_ok h
    refine ⟨fun hshadowed => ?_, ?_, fun _ =>
      (skipIncident_posted hskip).trans (.kept rfl rfl rfl)⟩
    · change RunsChange state _ skipped.runs skipped.discards
      refine runsChange_of_skip hshadowed (fun value hid hstatus hversion => ?_) hskip
      subst hid
      exact .rerun hstatus hversion
    · have hroutines := skipIncident_routines hskip
      have hroutine := routine_of_routines_eq hroutines hcurrent
      have hcollapse : replaceFirst Routine.routineId
          { pausedForm false current with runRequested := now }
          (replaceFirst Routine.routineId (pausedForm false current) state.routines) =
            replaceFirst Routine.routineId { pausedForm false current with runRequested := now }
              state.routines :=
        replaceFirst_replaceFirst rfl
      rw [replaceRoutine_routines, replaceRoutine_routines, hroutines, hcollapse]
      exact .edited (routine_self hroutine) (.rerun hkept)
  | pauseIncident incidentId now reason =>
    obtain ⟨value, current, told, hincident, hstatus, hroutine, hkept, htold, rfl⟩ := pauseIncident_of_ok h
    obtain ⟨-, rfl, -⟩ := incident_mem hincident
    refine ⟨fun hshadowed => .of_told (run_of_incident hshadowed hincident)
      ((onlyTells_replaceRoutine _ _).trans htold.onlyTells) (.paused hstatus htold.put.version), ?_,
      fun _ => (posted_replaceRoutine _ _).trans (htold.posted.trans (.kept rfl rfl rfl))⟩
    rw [replaceRun_routines, htold.routines_eq not_counts_told.2.2.2, replaceRoutine_routines]
    exact .edited (routine_self hroutine) (.incidentPaused hkept)
  | releaseIncident incidentId =>
    rcases releaseIncident_of_ok h with rfl | ⟨value, hrun, hstatus, rfl⟩
    · exact ⟨fun _ => .kept rfl, .kept, fun _ => .kept rfl rfl rfl⟩
    · obtain ⟨-, rfl⟩ := run_mem hrun
      exact ⟨fun _ => .released hrun hstatus, .kept, fun _ => .kept rfl rfl rfl⟩
  | acknowledge delivered =>
    cases h
    exact ⟨fun _ => .kept rfl, .kept, fun _ => ⟨rfl, rfl, fun hfitting => hfitting.filter _⟩⟩
  | discarded runId generation =>
    cases h
    exact ⟨fun _ => .discarded, .kept, fun _ => .kept rfl rfl rfl⟩

theorem runsChange_of_ok (hshadowed : Shadowed state.runs) (h : apply state call = .ok next) :
    RunsChange state call next.runs next.discards := (changed_of_ok h).runs hshadowed

theorem fitting_of_ok (hfitting : Fitting state.notices) (h : apply state call = .ok next) : Fitting next.notices := by
  by_cases hclaim : ∃ now keyFingerprint long, call.action = .claim now keyFingerprint long
  · obtain ⟨now, keyFingerprint, long, haction⟩ := hclaim
    obtain ⟨action, entropy⟩ := call
    obtain rfl := haction
    obtain ⟨⟨result, claimed⟩, hclaim, rfl⟩ := map_eq_ok.mp h
    obtain ⟨-, swept, hswept, hclaimed⟩ := claimed_of_ok hclaim
    exact hclaimed.fitting ((sweepFrom_posted hswept).fitting hfitting)
  · simp only [not_exists] at hclaim
    exact ((changed_of_ok h).posted hclaim).fitting hfitting

/-- The Routines a call leaves listed. -/
inductive IdsChange (state next : TeamRoutines) : Prop where
  | kept (hids : next.routines.map Routine.routineId = state.routines.map Routine.routineId)
  | added {routineId} (hfresh : routineId ∉ state.routines.map Routine.routineId)
      (hroom : state.routines.length < maxRoutines) (hids : next.routines.map Routine.routineId =
        state.routines.map Routine.routineId ++ [routineId])
  | removed {routineId} (hidle : ∀ item ∈ next.runs, item.routineId ≠ routineId)
      (hids : next.routines.map Routine.routineId =
        (state.routines.map Routine.routineId).filter fun id => id != routineId)

/-- Every applied call keeps the listed Routines, adds a new one where there is room, or removes
one that has no run. -/
theorem idsChange_of_ok (h : apply state call = .ok next) : IdsChange state next := by
  have hchange := (changed_of_ok h).routines
  generalize hroutines : next.routines = routines at hchange
  cases hchange with
  | kept => exact .kept (congrArg _ hroutines)
  | created hadded =>
    refine .added (fun hmem => ?_) hadded.room (by rw [hroutines, map_append]; rfl)
    obtain ⟨item, hitem, heq⟩ := mem_map.mp hmem
    exact hadded.fresh item hitem heq
  | deleted =>
    obtain ⟨value, id, -, -, hidle, -, -, rfl⟩ := completeDelete_of_ok h
    refine .removed hidle ?_
    rw [filter_map]
    rfl
  | edited => exact .kept (hroutines ▸ map_key_replaceFirst)
  | swept hswept | idle hswept => exact .kept (hroutines ▸ (sweep_onlyTells hswept).ids)
  | requested hswept | fired hswept =>
    exact .kept (hroutines ▸ map_key_replaceFirst.trans (sweep_onlyTells hswept).ids)

end

theorem found_of_replaced {state next runId updated value before} (hbefore : run state before.runId = .ok before)
    (hruns : next.runs = replaceFirst Run.runId updated state.runs) (hfound : run next runId = .ok value)
    (hid : updated.runId = before.runId) :
    run state runId = .ok value ∨ value = updated ∧ run state runId = .ok before := by
  rw [run_eq_ok, hruns] at hfound
  by_cases hsame : updated.runId = runId
  · have hrun : run state runId = .ok before := by rwa [← hsame, hid]
    have hself := find?_replaceFirst_self (run_eq_ok.mp hrun) hsame
    exact .inr ⟨Option.some.inj (hfound.symm.trans hself), hrun⟩
  · rw [find?_replaceFirst_ne hsame] at hfound
    exact .inl (run_eq_ok.mpr hfound)

theorem found_of_removed {next state runId other value}
    (hruns : next.runs = state.runs.filter fun item => item.runId != other) (hfound : run next runId = .ok value) :
    run state runId = .ok value := by
  rw [run_eq_ok, hruns] at hfound
  exact run_eq_ok.mpr (find?_of_find?_remove hfound)

variable [Platform] {state next : TeamRoutines} {call : Call} {value : Run}

inductive RunStep : Call → Run → Run → Prop where
  | kept {call : Call} {value} : RunStep call value value
  | edited {call value updated} (hedit : RunEdit call value updated) :
      RunStep call value updated
  | indexed {value now step entropy}
      (hstatus : value.status = .held) (hversion : 1 ≤ (versioned value).noticeVersion) :
      RunStep ⟨.settleHold value.runId now step, entropy⟩ value (indexedForm value step)
  | setAside {value now step entropy}
      (hstatus : value.status = .held) (hversion : 1 ≤ (versioned value).noticeVersion)
      (hskipped : 1 ≤ (skippedForm (indexedForm value step)).noticeVersion) :
      RunStep ⟨.settleHold value.runId now step, entropy⟩ value
        (skippedForm (indexedForm value step))
  | reopened {state value current now generation token entropy} (hstatus : value.status = .unresolved)
      (hreopenable : Reopenable state value current generation)
      (htoken : newToken entropy = .ok token) :
      RunStep ⟨.reopenIncident value.runId now generation, entropy⟩ value
        (reopenedForm value token now generation)

variable {updated : Run}

theorem RunStep.runId (h : RunStep call value updated) : updated.runId = value.runId := by
  cases h with
  | edited hedit => exact hedit.runId
  | kept | indexed | setAside | reopened => rfl

variable {runId : String}

inductive FoundRun (state : TeamRoutines) (runId : String) : Call → Run → Prop where
  | stepped {call : Call} {value updated} (hrun : run state runId = .ok value)
      (hstep : RunStep call value updated) : FoundRun state runId call updated
  | started {swept due now keyFingerprint token long entropy} (hunknown : ∀ value, run state runId ≠ .ok value)
      (hswept : sweep state now = .ok swept) (hsome : claimable swept now long = some due)
      (htoken : newToken entropy = .ok token) (hid : newId entropy = .ok runId) :
      FoundRun state runId ⟨.claim now keyFingerprint long, entropy⟩
        (leasedForm runId token due now keyFingerprint)

/-- A replaced record is found stepped, and every other record as it was. -/
theorem FoundRun.of_replaced {before} (hbefore : run state before.runId = .ok before)
    (hruns : next.runs = replaceFirst Run.runId updated state.runs)
    (hfound : run next runId = .ok value) (hstep : RunStep call before updated) : FoundRun state runId call value := by
  rcases found_of_replaced hbefore hruns hfound hstep.runId with hkept | ⟨rfl, hrun⟩
  · exact .stepped hkept .kept
  · exact .stepped hrun hstep

theorem RunsChange.foundRun (h : RunsChange state call next.runs next.discards)
    (hfound : run next runId = .ok value) : FoundRun state runId call value := by
  generalize hruns : next.runs = runs at h
  generalize next.discards = discards at h
  cases h with
  | kept | discarded =>
    rw [run_eq_ok, hruns] at hfound
    exact .stepped (run_eq_ok.mpr hfound) .kept
  | started _ hswept hsome _ htoken hid =>
    rw [run_eq_ok, hruns, List.find?_append] at hfound
    rcases Option.or_eq_some_iff.mp hfound with hbefore | ⟨hnone, hnew⟩
    · exact .stepped (run_eq_ok.mpr hbefore) .kept
    · obtain ⟨hmem, hkey⟩ := find?_key_mem hnew
      obtain rfl := List.mem_singleton.mp hmem
      obtain rfl := hkey
      refine .started (fun before hbefore => ?_) hswept hsome htoken hid
      rw [run_eq_ok, hnone] at hbefore
      cases hbefore
  | edited hrun hedit => exact .of_replaced hrun hruns hfound (.edited hedit)
  | indexed hrun hstatus hversion => exact .of_replaced hrun hruns hfound (.indexed hstatus hversion)
  | setAside hrun hstatus hversion hskipped =>
    exact .of_replaced hrun hruns hfound (.setAside hstatus hversion hskipped)
  | reopened hrun hstatus hreopenable htoken =>
    exact .of_replaced hrun hruns hfound (.reopened hstatus hreopenable htoken)
  | ended | released => exact .stepped (found_of_removed hruns hfound) .kept

end ShimpzTeams.Routines
