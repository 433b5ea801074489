import ShimpzTeams.Routines.Exclusivity

/-!
# What a sweep makes of each Routine, and what a call leaves of it

A sweep visits every Routine once. It leaves a continuous Routine alone, moves a
scheduled one past the firings too late to start, and reports its misses when there
is room. Only a creation, an update and a refinement write a Routine's definition,
within its contract and its budget; every other call changes the scheduling state
alone.
-/

namespace ShimpzTeams.Routines

open StrictJson Protocol Library List

section

variable {schedule : Value}

theorem get_gap_eq_none (hexact : exactSchedule schedule = true)
    (hkind : string (fieldOf schedule "kind") ≠ some "continuous") : schedule.get "gap" = none := by
  unfold exactSchedule at hexact
  rw [Option.any_eq_true] at hexact
  obtain ⟨kind, hscheduled, hmembers⟩ := hexact
  rw [Option.any_eq_true] at hmembers
  obtain ⟨members, hobject, -⟩ := hmembers
  obtain ⟨hstring, hknown⟩ := Option.filter_eq_some_iff.mp hscheduled
  rw [get_bind_string] at hstring
  have hnot : kind ≠ "continuous" := by
    rintro rfl
    exact hkind hstring
  have hfields : "gap" ∉ scheduleFields kind := by
    rw [contains_iff_mem, scheduleKinds] at hknown
    have hall : ∀ kind ∈ ["daily", "monthly", "weekly"], "gap" ∉ scheduleFields kind := by decide
    exact hall kind ((mem_cons.mp hknown).resolve_left hnot)
  obtain ⟨hfound, hexactly⟩ := Option.filter_eq_some_iff.mp hobject
  cases schedule with
  | object found =>
    obtain rfl := Option.some.inj hfound
    simp only [hasExactly, Bool.and_eq_true, all_eq_true, contains_iff_mem] at hexactly
    have hnone : found.find? (fun member => member.1 == "gap") = none := by
      rw [find?_eq_none]
      intro member hmember heq
      exact hfields (beq_iff_eq.mp heq ▸ hexactly.2 member hmember)
    simp [Value.get, hnone]
  | null | bool | number | string | array => cases hfound

theorem scheduleGap_pos {gap} (hexact : exactSchedule schedule = true)
    (hgap : (schedule.get "gap").bind smallInt = some gap) : minContinuousGapSeconds ≤ gap := by
  by_cases hkind : string (fieldOf schedule "kind") = some "continuous"
  · unfold exactSchedule at hexact
    rw [Option.any_eq_true] at hexact
    obtain ⟨kind, hscheduled, hmembers⟩ := hexact
    rw [Option.any_eq_true] at hmembers
    obtain ⟨members, hobject, hchecked⟩ := hmembers
    have hfield := fieldOf_of_exactObject hobject "gap"
    have hcontinuous : kind = "continuous" := by
      obtain ⟨hstring, -⟩ := Option.filter_eq_some_iff.mp hscheduled
      rw [get_bind_string] at hstring
      exact Option.some.inj (hstring.symm.trans hkind)
    rw [hcontinuous, scheduleMembers, if_pos BEq.rfl, whole, ← hfield] at hchecked
    rw [get_bind_smallInt] at hgap
    rw [hgap] at hchecked
    simp only [Option.any_some, Bool.and_eq_true, decide_eq_true_eq] at hchecked
    exact hchecked.1
  · rw [get_gap_eq_none hexact hkind] at hgap
    cases hgap

end

section

variable [Platform] {value : Routine}

variable {firing after : Int}

theorem firstFiring_gt {schedule time zone days day} (h : firstFiring schedule time zone after days day = some firing) : after < firing := by
  induction days generalizing day with
  | zero => cases h
  | succ days ih =>
    have hlater : (day.addDays 1).bind (firstFiring schedule time zone after days) = some firing →
        after < firing := by
      intro hlater
      obtain ⟨tomorrow, -, hfiring⟩ := Option.bind_eq_some_iff.mp hlater
      exact ih hfiring
    simp only [firstFiring] at h
    split at h
    · obtain ⟨candidate, -, hcandidate⟩ := Option.bind_eq_some_iff.mp h
      split at hcandidate
      · rename_i hafter
        exact Option.some.inj hcandidate ▸ hafter
      · exact hlater hcandidate
    · exact hlater h

theorem nextRun_gt {schedule timezone anchor}
    (h : nextRun schedule timezone anchor after = some firing) : max after anchor < firing := by
  unfold nextRun at h
  obtain ⟨canonical, hcanonical, h⟩ := Option.bind_eq_some_iff.mp h
  obtain ⟨zone, -, h⟩ := Option.bind_eq_some_iff.mp h
  have hexact : exactSchedule canonical = true := by
    unfold canonicalSchedule admits at hcanonical
    split at hcanonical
    · rename_i hexact
      exact Option.some.inj hcanonical ▸ hexact
    · cases hcanonical
  dsimp only at h
  split at h
  · rename_i gap hgap
    have hpos := scheduleGap_pos hexact hgap
    split at h
    · cases h
      unfold minContinuousGapSeconds at hpos
      omega
    · cases h
  · obtain ⟨time, -, h⟩ := Option.bind_eq_some_iff.mp h
    obtain ⟨day, -, h⟩ := Option.bind_eq_some_iff.mp h
    exact firstFiring_gt h

/-- A Routine's next firing is later than the instant it is asked for and than its anchor. -/
theorem nextAfter_gt (h : nextAfter value after = .ok firing) : after < firing ∧ value.anchor < firing := by
  have hnext := nextRun_gt (found_eq_ok.mp h)
  exact ⟨lt_of_le_of_lt (le_max_left _ _) hnext, lt_of_le_of_lt (le_max_right _ _) hnext⟩

/-- Counting firings up to a limit reaches one at or after it. -/
theorem le_of_countBefore {first limit count next}
    (h : countBefore value first limit = .ok (count, next)) : limit ≤ next := by
  unfold countBefore at h
  obtain ⟨⟨counted, current⟩, -, h⟩ := bind_eq_ok.mp h
  dsimp only at h
  split at h
  · obtain ⟨following, hfollowing, h⟩ := bind_eq_ok.mp h
    obtain ⟨-, rfl⟩ := Prod.mk.inj (Except.ok.inj h)
    have hafter := (nextAfter_gt hfollowing).1
    omega
  · rename_i hreached
    obtain ⟨-, rfl⟩ := Prod.mk.inj (Except.ok.inj h)
    exact not_lt.mp hreached

end

section

variable [Platform] {state next : TeamRoutines} {now : Int}

/-- A Routine past its firings too late to start at `now`. -/
inductive Moved (now : Int) (item : Routine) : Routine → Prop where
  | current (hcurrent : now - graceSeconds item ≤ item.nextRunAt) : Moved now item item
  | late {count first} (hlate : item.nextRunAt < now - graceSeconds item)
      (hcount : countBefore item item.nextRunAt (now - graceSeconds item) = .ok (count, first)) :
      Moved now item (miss item item.nextRunAt count first)

/-- What a sweep at `now` makes of one Routine. -/
inductive SweptTo (now : Int) (item : Routine) : Routine → Prop where
  | continuous (hcontinuous : continuous item = true) : SweptTo now item item
  | moved {value} (hscheduled : continuous item = false) (hmoved : Moved now item value) :
      SweptTo now item value
  | reported {value} (hscheduled : continuous item = false)
      (hmoved : Moved now item value) (hmissed : value.missed ≠ value.reportedMissed) :
      SweptTo now item (reportedForm value)

/-- A Routine a sweep at `now` has nothing left to do for. -/
def Settled (state : TeamRoutines) (now : Int) (item : Routine) : Prop :=
  continuous item = true ∨ now - graceSeconds item ≤ item.nextRunAt ∧
    (item.missed = item.reportedMissed ∨ mayReport state item false = false)

/-- The notices a step of a sweep leaves: the same, or a Routine's gap notice in its place. -/
def GapPosted (state next : TeamRoutines) (now : Int) (value : Routine) : Prop :=
  next.notices = state.notices ∨
    ∃ current, next.notices = (publish state ((gapNotice value now).named current)).notices

variable {value : Routine} {inFlight : Bool}

theorem Reported.gapPosted (h : Reported state value now inFlight next) : GapPosted state next now value := by
  cases h with
  | nothing | noRoom => exact .inl rfl
  | reported => exact .inr ⟨_, rfl⟩

structure Visited (now : Int) (before : TeamRoutines) (item : Routine) (after : TeamRoutines)
    (value : Routine) : Prop where
  swept : SweptRoutine before item now after
  becomes : SweptTo now item value
  settled : Settled after now value
  posted : GapPosted before after now value

theorem Moved.routineId {item} (h : Moved now item value) : value.routineId = item.routineId := by
  cases h <;> rfl

theorem SweptTo.routineId {item} (h : SweptTo now item value) : value.routineId = item.routineId := by
  cases h with
  | continuous => rfl
  | moved _ hmoved => exact hmoved.routineId
  | reported _ hmoved => exact hmoved.routineId

variable {motive : List Routine → List Routine → TeamRoutines → Prop}

section

variable {before after : List Routine} {item : Routine}

omit [Platform] in
theorem replaceRoutine_append {updated} (hroutines : state.routines = before ++ item :: after)
    (hids : (state.routines.map Routine.routineId).Nodup) (hid : updated.routineId = item.routineId) :
    (replaceRoutine state updated).routines = before ++ updated :: after := by
  rw [replaceRoutine_routines, hroutines]
  refine replaceFirst_append (fun other hother heq => ?_) hid.symm
  rw [hroutines, map_append, nodup_append] at hids
  refine hids.2.2 other.routineId (mem_map_of_mem hother) item.routineId ?_ (heq.trans hid)
  simp

theorem Reported.routines (h : Reported state value now inFlight next)
    (hroutines : state.routines = before ++ value :: after) (hids : (state.routines.map Routine.routineId).Nodup) :
    (next.routines = before ++ value :: after ∧
      (value.missed = value.reportedMissed ∨ mayReport next value inFlight = false)) ∨
      value.missed ≠ value.reportedMissed ∧ next.routines = before ++ reportedForm value :: after := by
  cases h with
  | nothing hnothing => exact .inl ⟨hroutines, .inl hnothing⟩
  | noRoom _ hroom => exact .inl ⟨hroutines, .inr hroom⟩
  | reported hmissed => exact .inr ⟨hmissed, replaceRoutine_append hroutines hids rfl⟩

theorem SweptRoutine.visited (h : SweptRoutine state item now next)
    (hroutines : state.routines = before ++ item :: after) (hids : (state.routines.map Routine.routineId).Nodup) :
    ∃ value, Visited now state item next value ∧ next.routines = before ++ value :: after := by
  have hswept := h
  cases h with
  | continuous hcontinuous =>
    exact ⟨item, ⟨hswept, .continuous hcontinuous, .inl hcontinuous, .inl rfl⟩, hroutines⟩
  | current hscheduled hcurrent hreport =>
    have hposted := hreport.gapPosted
    rcases hreport.routines hroutines hids with ⟨hkept, htold⟩ | ⟨hmissed, hreported⟩
    · exact ⟨item, ⟨hswept, .moved hscheduled (.current hcurrent), .inr ⟨hcurrent, htold⟩, hposted⟩, hkept⟩
    · exact ⟨reportedForm item, ⟨hswept, .reported hscheduled (.current hcurrent) hmissed,
        .inr ⟨hcurrent, .inl rfl⟩, hposted⟩, hreported⟩
  | @late hscheduled hlate count first hcount _ hreport =>
    have hmissed : (replaceRoutine state (miss item item.nextRunAt count first)).routines =
        before ++ miss item item.nextRunAt count first :: after :=
      replaceRoutine_append hroutines hids rfl
    have hnodup : ((replaceRoutine state (miss item item.nextRunAt count first)).routines.map
        Routine.routineId).Nodup := by
      rwa [replaceRoutine_ids]
    have hreached := le_of_countBefore hcount
    have hposted := hreport.gapPosted
    rcases hreport.routines hmissed hnodup with ⟨hkept, htold⟩ | ⟨hne, hreported⟩
    · exact ⟨_, ⟨hswept, .moved hscheduled (.late hlate hcount), .inr ⟨hreached, htold⟩, hposted⟩, hkept⟩
    · exact ⟨_, ⟨hswept, .reported hscheduled (.late hlate hcount) hne,
        .inr ⟨hreached, .inl rfl⟩, hposted⟩, hreported⟩

/-- What every visit keeps holds of the Routines a sweep saw, of what it made of them, and of the
state it leaves. -/
theorem sweepFrom_induct (hstep : ∀ seen done state item next value, motive seen done state →
      Visited now state item next value → motive (seen ++ [item]) (done ++ [value]) next)
    {seen done rest} (h : sweepFrom now state rest = .ok next) (hroutines : state.routines = done ++ rest)
    (hids : (state.routines.map Routine.routineId).Nodup) (hmotive : motive seen done state) :
    motive (seen ++ rest) next.routines next := by
  induction rest generalizing state seen done with
  | nil =>
    obtain rfl := sweepFrom_nil_eq_ok.mp h
    rwa [hroutines, append_nil, append_nil]
  | cons item rest ih =>
    obtain ⟨middle, hmiddle, hrest⟩ := sweepFrom_cons_eq_ok.mp h
    have hswept := sweptRoutine_of_ok hmiddle
    obtain ⟨value, hvisited, hvalue⟩ := hswept.visited hroutines hids
    have hsplit : middle.routines = (done ++ [value]) ++ rest := by
      rw [hvalue, append_assoc, singleton_append]
    have hnodup : (middle.routines.map Routine.routineId).Nodup := by
      rwa [hswept.onlyTells.ids]
    have hdone := ih hrest hsplit hnodup (hstep _ _ _ _ _ _ hmotive hvisited)
    rwa [append_assoc, singleton_append] at hdone

end

theorem sweep_induct (hstep : ∀ seen done state item next value, motive seen done state →
      Visited now state item next value → motive (seen ++ [item]) (done ++ [value]) next)
    (h : sweep state now = .ok next) (hids : (state.routines.map Routine.routineId).Nodup)
    (hmotive : motive [] [] state) : motive state.routines next.routines next :=
  sweepFrom_induct hstep h (nil_append _).symm hids hmotive

/-- A sweep makes of each Routine, in place, what `SweptTo` says. -/
theorem sweep_forall₂ (h : sweep state now = .ok next) (hids : (state.routines.map Routine.routineId).Nodup) :
    List.Forall₂ (SweptTo now) state.routines next.routines := by
  refine sweep_induct (motive := fun seen done _ => List.Forall₂ (SweptTo now) seen done) ?_ h hids .nil
  intro seen done state item next value hforall hvisited
  exact rel_append hforall (.cons hvisited.becomes .nil)

end

section

variable [Platform] {state next : TeamRoutines} {call : Call}
variable {value updated : Routine}

inductive RoutineStep (state : TeamRoutines) : Call → Routine → Routine → Prop where
  | kept {call : Call} {value} : RoutineStep state call value value
  | edited {call : Call} {value updated} (hedit : RoutineEdit state call value updated) :
      RoutineStep state call value updated
  | swept {value updated now entropy} (hswept : SweptTo now value updated) :
      RoutineStep state ⟨.sweep now, entropy⟩ value updated
  | passed {value updated now keyFingerprint long entropy} (hswept : SweptTo now value updated) :
      RoutineStep state ⟨.claim now keyFingerprint long, entropy⟩ value updated
  | requested {swept value due now keyFingerprint long entropy} (hswept : SweptTo now value due)
      (hclaimable : Claimable swept now long due) (hrequested : due.runRequested ≠ 0)
      (hbefore : now < due.nextRunAt) :
      RoutineStep state ⟨.claim now keyFingerprint long, entropy⟩ value (unrequested due)
  | fired {swept value due served now keyFingerprint long entropy} (hswept : SweptTo now value due)
      (hclaimable : Claimable swept now long due)
      (hfired : due.runRequested = 0 ∨ due.nextRunAt ≤ now) (hserved : Served due now served) :
      RoutineStep state ⟨.claim now keyFingerprint long, entropy⟩ value (clearedForm served)

variable {routines : List Routine}

omit [Platform] in
theorem mem_filter_routineId {routineId} (h : value ∈ routines.filter fun item => item.routineId != routineId) :
    value ∈ routines ∧ value.routineId ≠ routineId := by
  obtain ⟨hmem, hne⟩ := List.mem_filter.mp h
  exact ⟨hmem, by simpa using hne⟩

theorem mem_claimed {swept now due}
    (hids : (state.routines.map Routine.routineId).Nodup) (hswept : sweep state now = .ok swept)
    (hdue : due ∈ swept.routines) (hvalue : value ∈ replaceFirst Routine.routineId updated swept.routines) :
    (value = updated ∧ ∃ item ∈ state.routines, SweptTo now item due) ∨
      ∃ item ∈ state.routines, SweptTo now item value := by
  have hnodup : (swept.routines.map Routine.routineId).Nodup := by
    rwa [(sweep_onlyTells hswept).ids]
  rcases (mem_replaceFirst hnodup).mp hvalue with hclaimed | ⟨hother, -⟩
  · exact .inl ⟨hclaimed.1, exists_left_of_mem (sweep_forall₂ hswept hids) hdue⟩
  · exact .inr (exists_left_of_mem (sweep_forall₂ hswept hids) hother)

theorem RoutineEdit.routineId (h : RoutineEdit state call value updated) : updated.routineId = value.routineId := by
  cases h with
  | updated hchangeable => exact (routine_mem hchangeable.routine).2.symm
  | settled => exact rebased_routineId _
  | ended => rw [rebased_routineId, countedForm_routineId]
  | finished _ _ _ hcompleted | recovered _ _ _ hcompleted =>
    rw [rebased_routineId, hcompleted.routineId]
  | refined | paused | deleting | reconfirm | rerun | incidentPaused => rfl

theorem RoutineStep.routineId (h : RoutineStep state call value updated) : updated.routineId = value.routineId := by
  cases h with
  | kept => rfl
  | edited hedit => exact hedit.routineId
  | swept hswept | passed hswept => exact hswept.routineId
  | requested hswept =>
    have hid := hswept.routineId
    exact hid
  | fired hswept _ _ hserved =>
    have hid := hserved.routineId.trans hswept.routineId
    exact hid

/-- What any applied call leaves listed: what it made of a Routine listed before, or the Routine it
created. -/
theorem RoutinesChange.steps (hids : (state.routines.map Routine.routineId).Nodup)
    (h : RoutinesChange state call routines) (hvalue : value ∈ routines) :
    (∃ item ∈ state.routines, RoutineStep state call item value) ∨
      ∃ created now usage steps, call.action = .create created now usage steps ∧
        Added state created ∧ value = admittedForm created 1 := by
  cases h with
  | kept => exact .inl ⟨value, hvalue, .kept⟩
  | created hadded =>
    rcases List.mem_append.mp hvalue with hold | hnew
    · exact .inl ⟨value, hold, .kept⟩
    · exact .inr ⟨_, _, _, _, rfl, hadded, List.mem_singleton.mp hnew⟩
  | deleted => exact .inl ⟨value, (mem_filter_routineId hvalue).1, .kept⟩
  | edited hroutine hedit =>
    rcases (mem_replaceFirst hids).mp hvalue with ⟨rfl, -⟩ | ⟨hother, -⟩
    · exact .inl ⟨_, (routine_mem hroutine).1, .edited hedit⟩
    · exact .inl ⟨value, hother, .kept⟩
  | swept hswept =>
    obtain ⟨item, hitem, hto⟩ := exists_left_of_mem (sweep_forall₂ hswept hids) hvalue
    exact .inl ⟨item, hitem, .swept hto⟩
  | idle hswept =>
    obtain ⟨item, hitem, hto⟩ := exists_left_of_mem (sweep_forall₂ hswept hids) hvalue
    exact .inl ⟨item, hitem, .passed hto⟩
  | requested hswept hsome hrequested hbefore =>
    have hclaimable := claimable_of_some hsome
    rcases mem_claimed hids hswept hclaimable.listed hvalue with ⟨rfl, item, hitem, hto⟩ | ⟨item, hitem, hto⟩
    · exact .inl ⟨item, hitem, .requested hto hclaimable hrequested hbefore⟩
    · exact .inl ⟨item, hitem, .passed hto⟩
  | fired hswept hsome hfired hserved =>
    have hclaimable := claimable_of_some hsome
    rcases mem_claimed hids hswept hclaimable.listed hvalue with ⟨rfl, item, hitem, hto⟩ | ⟨item, hitem, hto⟩
    · exact .inl ⟨item, hitem, .fired hto hclaimable hfired hserved⟩
    · exact .inl ⟨item, hitem, .passed hto⟩

end

/-- A Routine's definition: what is left once its scheduling state is reset. -/
def Routine.definition (value : Routine) : Routine :=
  { value with
    nextRunAt := 0, needsReconfirm := false, deleting := false, gapStartedAt := 0, missed := 0,
    reportedMissed := 0, paused := false, failures := 0, rollupMinute := 0, rollupRuns := 0,
    rollupUsage := none, runRequested := 0, outputDigest := "" }

section

variable {left right : Routine}

theorem plan_eq_of_definition (h : left.definition = right.definition) : left.plan = right.plan := by
  have hplan := congrArg Routine.plan h
  exact hplan

theorem schedule_eq_of_definition (h : left.definition = right.definition) : left.schedule = right.schedule := by
  have hschedule := congrArg Routine.schedule h
  exact hschedule

theorem routineId_eq_of_definition (h : left.definition = right.definition) : left.routineId = right.routineId := by
  have hid := congrArg Routine.routineId h
  exact hid

theorem runUnits_eq_of_definition (h : left.definition = right.definition) : runUnits left = runUnits right := by
  unfold runUnits
  rw [plan_eq_of_definition h]

end

section

theorem checkOutput_ne_nil {output ids} (h : checkOutput output ids = .ok ()) : ids ≠ [] := by
  rintro rfl
  unfold checkOutput at h
  rw [guard_eq_ok] at h
  split at h
  · rename_i hlast
    cases hlast
  · cases h.2

variable [Platform]

/-- The top-level shape and bounds of a plan document. -/
structure Document (document : Value) (steps : List Value) (output : Value) : Prop where
  fields : hasFields document ["version", "timezone", "steps", "output"] = true
  version : (fieldOf document "version" == int version) = true
  size : encodedBytes document ≤ maxPlanBytes
  zoned : (zone (fieldOf document "timezone")).isSome = true
  listed : array (fieldOf document "steps") = some steps
  length : steps.length ≤ maxSteps
  output : fieldOf document "output" = output

theorem document_of_ok {document output steps}
    (h : documentParts document = .ok (steps, output)) : Document document steps output := by
  simp only [documentParts, guard_eq_ok] at h
  obtain ⟨hfields, hversion, hzone, h⟩ := h
  simp only [Bool.or_eq_true, decide_eq_true_eq, not_or, not_lt] at hversion
  cases hsteps : array (fieldOf document "steps") with
  | none =>
    rw [hsteps] at h
    cases h
  | some found =>
    rw [hsteps] at h
    dsimp only at h
    rw [guard_eq_ok] at h
    obtain ⟨hlength, heq⟩ := h
    cases heq
    have hzoned : (zone (fieldOf document "timezone")).isSome = true := by
      rw [Option.isSome_iff_ne_none]
      simpa using hzone
    exact ⟨by simpa using hfields, by simpa [bne] using hversion.1, hversion.2, hzoned, hsteps,
      not_lt.mp hlength, rfl⟩

theorem length_of_stepIds {known ids steps}
    (h : stepIds known steps = .ok ids) : ids.length = known.length + steps.length := by
  induction steps generalizing known with
  | nil =>
    cases h
    simp
  | cons step rest ih =>
    obtain ⟨id, -, hrest⟩ := bind_eq_ok.mp h
    have hlength := ih hrest
    simp only [length_append, length_singleton] at hlength
    simp only [length_cons]
    omega

theorem wellFormed_steps {plan} (h : wellFormed plan = true) :
    1 ≤ (planSteps plan).length ∧ (planSteps plan).length ≤ maxSteps := by
  unfold wellFormed at h
  cases hcheck : checkPlan plan with
  | error refusal =>
    rw [hcheck] at h
    cases h
  | ok result =>
    obtain ⟨⟨steps, output⟩, hparts, hrest⟩ := bind_eq_ok.mp hcheck
    obtain ⟨ids, hids, houtput⟩ := bind_eq_ok.mp hrest
    have hdocument := document_of_ok hparts
    have hsteps : planSteps plan = steps := by
      unfold planSteps
      cases hfield : fieldOf plan "steps" with
      | array items =>
        have harray := hdocument.listed
        rw [hfield] at harray
        exact Option.some.inj harray
      | null | bool | number | string | object =>
        have harray := hdocument.listed
        rw [hfield] at harray
        cases harray
    have hlength := length_of_stepIds hids
    have hne := length_pos_iff.mpr (checkOutput_ne_nil houtput)
    rw [hsteps]
    exact ⟨by simp at hlength; omega, hdocument.length⟩

end

theorem rebased_definition {now} (value) : (rebased now value).definition = value.definition := by
  unfold rebased
  split <;> rfl

theorem countedForm_definition (value outcome) : (countedForm value outcome).definition = value.definition := by
  unfold countedForm
  split <;> rfl

theorem CompletedTo.definition {value now shown current updated}
    (h : CompletedTo value now shown current updated) : updated.definition = current.definition := by
  cases h <;> rfl

variable [Platform] {state next : TeamRoutines} {call : Call} {now : Int}

/-- A Routine whose definition is in its contract and within its budget. -/
structure Sound (value : Routine) : Prop where
  valid : definitionValid value = true
  fits : fits value = true

theorem Sound.of_definition {left right} (h : Sound left)
    (hsame : right.definition = left.definition) : Sound right := by
  have hvalid : definitionValid right.definition = definitionValid left.definition := congrArg definitionValid hsame
  have hfits : Routines.fits right.definition = Routines.fits left.definition := congrArg Routines.fits hsame
  exact ⟨hvalid.trans h.valid, hfits.trans h.fits⟩

variable {value : Routine}

theorem Defined.sound {revision} (h : Defined value revision) : Sound (definedForm value revision) :=
  ⟨h.valid, h.fits⟩

theorem Moved.definition {item} (h : Moved now item value) : value.definition = item.definition := by
  cases h <;> rfl

theorem SweptTo.definition {item} (h : SweptTo now item value) : value.definition = item.definition := by
  cases h with
  | continuous => rfl
  | moved _ hmoved => exact hmoved.definition
  | reported _ hmoved => exact hmoved.definition

theorem Served.definition {due served} (h : Served due now served) : served.definition = due.definition := by
  cases h <;> rfl

variable {updated current : Routine}

/-- What an edit makes of the definition: the update's, the refinement's, or the one it was. -/
theorem RoutineEdit.sound (h : RoutineEdit state call current updated) (hsound : Sound current) : Sound updated := by
  cases h with
  | updated _ hdefined => exact hdefined.sound.of_definition rfl
  | refined _ _ hdefined => exact hdefined.sound
  | paused | deleting | reconfirm | rerun | incidentPaused => exact hsound.of_definition rfl
  | settled => exact hsound.of_definition (rebased_definition current)
  | ended =>
    exact hsound.of_definition ((rebased_definition _).trans (countedForm_definition current _))
  | finished _ _ _ hcompleted | recovered _ _ _ hcompleted =>
    exact hsound.of_definition ((rebased_definition _).trans hcompleted.definition)

theorem sweep_definition {swept} (hids : (state.routines.map Routine.routineId).Nodup)
    (h : sweep state now = .ok swept) (hvalue : value ∈ swept.routines) :
    ∃ item ∈ state.routines, SweptTo now item value ∧ value.definition = item.definition := by
  obtain ⟨item, hitem, hswept⟩ := exists_left_of_mem (sweep_forall₂ h hids) hvalue
  exact ⟨item, hitem, hswept, hswept.definition⟩

theorem sound_of_ok (hexclusive : Exclusive state) (hsound : ∀ item ∈ state.routines, Sound item)
    (h : apply state call = .ok next) : ∀ item ∈ next.routines, Sound item := by
  have hswept : ∀ {now swept}, sweep state now = .ok swept → ∀ item ∈ swept.routines, Sound item := by
    intro now swept hsweep value hvalue
    obtain ⟨item, hitem, -, hsame⟩ := sweep_definition hexclusive.ids hsweep hvalue
    exact (hsound item hitem).of_definition hsame
  intro value hvalue
  generalize hroutines : next.routines = routines at hvalue
  have hchange := (changed_of_ok h).routines
  rw [hroutines] at hchange
  cases hchange with
  | kept => exact hsound value hvalue
  | created hadded =>
    rcases mem_append.mp hvalue with hbefore | hnew
    · exact hsound value hbefore
    · rw [mem_singleton.mp hnew]
      exact hadded.defined.sound.of_definition rfl
  | deleted => exact hsound value (mem_filter.mp hvalue).1
  | edited hroutine hedit =>
    rcases mem_of_mem_replaceFirst hvalue with rfl | hbefore
    · exact hedit.sound (hsound _ (routine_mem hroutine).1)
    · exact hsound value hbefore
  | swept hsweep | idle hsweep => exact hswept hsweep value hvalue
  | requested hsweep hsome =>
    rcases mem_of_mem_replaceFirst hvalue with rfl | hbefore
    · exact (hswept hsweep _ (claimable_of_some hsome).listed).of_definition rfl
    · exact hswept hsweep value hbefore
  | fired hsweep hsome _ hserved =>
    rcases mem_of_mem_replaceFirst hvalue with rfl | hbefore
    · have hdue := hswept hsweep _ (claimable_of_some hsome).listed
      exact (hdue.of_definition hserved.definition).of_definition rfl
    · exact hswept hsweep value hbefore

/-- Whatever calls were made, every listed definition is in its contract and its budget. -/
theorem sound_after (calls) : ∀ item ∈ (after calls).routines, Sound item := by
  refine run_invariant_with exclusive_after (fun _ _ _ => sound_of_ok) ?_ calls
  intro item hitem
  cases hitem

end ShimpzTeams.Routines
