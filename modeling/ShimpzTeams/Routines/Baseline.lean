import ShimpzTeams.Routines.Sweeps
import ShimpzTeams.Routines.Sample

/-!
# The output baseline

A Routine that shows only changes keeps the digest of the result it last showed.
The last one shown is read off the calls and their notices alone, and the
recorded digest is always that one.
-/

namespace ShimpzTeams.Routines

open StrictJson Protocol Library

variable {routineId runId : String} {calls : List Call} {value : Run} {current : Routine} {shown : Option Value}

def outputMode (value : Routine) : String :=
  (string (fieldOf (fieldOf value.plan "output") "mode")).getD ""

def isShown (output : Value) : Bool := string (fieldOf output "state") == some "shown"

def Notice.shows (notice : Notice) : Bool := isShown (fieldOf notice.detail "output")

def slotDigest (shown : Option Value) : String :=
  (shown.bind fun slot => string (fieldOf slot "digest")).getD ""

namespace Call

def completes (call : Call) : Option (String × Option Value) :=
  match call.action with
  | .finish runId _ _ shown => some (runId, shown)
  | .completeRecovered runId _ _ shown => some (runId, shown)
  | _ => none

def defines (call : Call) : Option String :=
  match call.action with
  | .create value _ _ _ => some value.routineId
  | .update value _ _ => some value.routineId
  | .refine value _ _ => some value.routineId
  | _ => none

end Call

section

variable [Platform]

def showsFor (state next : TeamRoutines) (runId routineId : String) : Bool :=
  ((run state runId).toOption.any fun value => value.routineId == routineId) &&
    next.notices.any fun notice => notice.noticeId == runId && notice.shows

/-- The digest last shown once a call is applied: none since a new definition, the slot's once the
run's notice shows it, and otherwise the one before. -/
def shownAfter (routineId last : String) (item : TeamRoutines × Call) : String :=
  if item.2.defines = some routineId then ""
  else
    match item.2.completes with
    | some (runId, shown) =>
      if showsFor item.1 (step apply item.1 item.2) runId routineId then slotDigest shown else last
    | none => last

/-- The digest of the result a Routine's notices showed last since its revision was defined. -/
def lastShown (routineId : String) (calls : List Call) : String :=
  (applied apply {} calls).foldl (shownAfter routineId) ""

theorem lastShown_snoc_ok {call next} (h : apply (after calls) call = .ok next) :
    lastShown routineId (calls ++ [call]) = shownAfter routineId (lastShown routineId calls) (after calls, call) := by
  unfold lastShown
  rw [applied_snoc_ok h, List.foldl_append]
  rfl

theorem lastShown_snoc_error {call refusal} (h : apply (after calls) call = .error refusal) :
    lastShown routineId (calls ++ [call]) = lastShown routineId calls := by
  unfold lastShown
  rw [applied_snoc_error h]

end

section

variable {state next : TeamRoutines} {call : Call} {now : Int} {entropy : Entropy}

section

theorem rebased_outputDigest (value) : (rebased now value).outputDigest = value.outputDigest := by
  unfold rebased
  split <;> rfl

theorem countedForm_outputDigest (value outcome) : (countedForm value outcome).outputDigest = value.outputDigest := by
  unfold countedForm
  split <;> rfl

variable [Platform]

theorem Moved.outputDigest {item value} (h : Moved now item value) : value.outputDigest = item.outputDigest := by
  cases h <;> rfl

theorem SweptTo.outputDigest {item value} (h : SweptTo now item value) : value.outputDigest = item.outputDigest := by
  cases h with
  | continuous => rfl
  | moved _ hmoved | reported _ hmoved => exact hmoved.outputDigest

theorem Served.outputDigest {due served} (h : Served due now served) : served.outputDigest = due.outputDigest := by
  cases h <;> rfl

/-- Only a definition and a completion change what a Routine shows or showed. -/
theorem RoutineStep.baseline {value updated} (h : RoutineStep state call value updated)
    (hdefines : call.defines ≠ some value.routineId) (hcompletes : call.completes = none) :
    updated.plan = value.plan ∧ updated.outputDigest = value.outputDigest := by
  cases h with
  | kept => exact ⟨rfl, rfl⟩
  | swept hswept | passed hswept =>
    exact ⟨plan_eq_of_definition hswept.definition, hswept.outputDigest⟩
  | requested hswept =>
    have hplan := plan_eq_of_definition hswept.definition
    have hdigest := hswept.outputDigest
    exact ⟨hplan, hdigest⟩
  | fired hswept _ _ hserved =>
    have hplan := plan_eq_of_definition (hserved.definition.trans hswept.definition)
    have hdigest := hserved.outputDigest.trans hswept.outputDigest
    exact ⟨hplan, hdigest⟩
  | edited hedit =>
    cases hedit with
    | updated hchangeable =>
      refine absurd ?_ hdefines
      simp [Call.defines, (routine_mem hchangeable.routine).2]
    | refined hchangeable =>
      refine absurd ?_ hdefines
      simp [Call.defines, (routine_mem hchangeable.routine).2]
    | paused | deleting | reconfirm | rerun | incidentPaused => exact ⟨rfl, rfl⟩
    | settled => exact ⟨plan_eq_of_definition (rebased_definition _), rebased_outputDigest _⟩
    | ended =>
      exact ⟨plan_eq_of_definition ((rebased_definition _).trans (countedForm_definition _ _)),
        (rebased_outputDigest _).trans (countedForm_outputDigest _ _)⟩
    | finished | recovered => cases hcompletes

end

section

theorem streaked_completed (value current) : (streaked current (completed value)).2 = false := by
  have hfailed : (completed value == "failed") = false := by
    unfold completed
    split <;> rfl
  unfold streaked
  rw [hfailed]
  simp [maxFailureStreak]

theorem slotDigest_of_valid {slot} (h : validShown current value shown = some slot) :
    slotDigest shown = (string (fieldOf slot "digest")).getD "" := by
  unfold slotDigest
  rw [(Option.filter_eq_some_iff.mp h).1, Option.bind_some]

variable [Platform]

theorem Told.completed_notices {detail} (h : Told state value (completed value) now detail entropy current next) :
    next.notices = (publish state ((outcomeNotice value (completed value) now detail).named current)).notices := by
  cases h.counted with
  | uncounted => rfl
  | counted => rfl
  | paused _ hstreak => exact absurd hstreak (by simp [streaked_completed])

/-- What a completion does to a Routine that shows only changes, by the digest it leaves: it shows
nothing new, or it shows a result with another digest. -/
inductive Compared (state : TeamRoutines) (notices : List Notice) (value : Run)
    (shown : Option Value) (current : Routine) : String → Prop where
  | withheld (hold : ∀ notice ∈ notices, notice.shows = true → notice ∈ state.notices)
      (hown : ∀ notice ∈ notices, notice.noticeId = value.runId → notice.shows = true →
        slotDigest shown = current.outputDigest) :
      Compared state notices value shown current current.outputDigest
  | published {slot notice} (hslot : validShown current value shown = some slot)
      (hshown : isShown (fieldOf slot "output") = true)
      (hchanged : string (fieldOf slot "digest") ≠ some current.outputDigest)
      (hnotice : notice ∈ notices) (hid : notice.noticeId = value.runId)
      (hshows : notice.shows = true) :
      Compared state notices value shown current (slotDigest shown)

/-- A told completion whose output is no shown result shows nothing new. -/
theorem compared_of_withheld {output}
    (hroutine : routine state value.routineId = .ok current) (houtput : isShown output = false)
    (h : tellCompletion state current value (completed value) now output entropy = .ok next) :
    ∃ updated, routine next value.routineId = .ok updated ∧
      Compared state next.notices value shown current updated.outputDigest := by
  have htold := told_of_tell hroutine h
  have hnew : ((outcomeNotice value (completed value) now (completedNoticeDetail current output)).named
      current).shows = false := houtput
  have hself : routine next value.routineId = .ok { current with failures := 0 } := by
    rw [routine_of_told htold, countedForm_completed]
  have hold : ∀ notice ∈ next.notices, notice.shows = true →
      notice ∈ state.notices ∧ notice.noticeId ≠ value.runId := by
    intro notice hnotice hshows
    rw [htold.completed_notices, mem_publish] at hnotice
    rcases hnotice with hbefore | rfl
    · exact hbefore
    · rw [hnew] at hshows
      cases hshows
  exact ⟨_, hself, .withheld (fun notice hnotice hshows => (hold notice hnotice hshows).1)
    fun notice hnotice hid hshows => absurd hid (hold notice hnotice hshows).2⟩

theorem compared_of_published {slot digest} (hroutine : routine state value.routineId = .ok current)
    (hslot : validShown current value shown = some slot) (hshown : isShown (fieldOf slot "output") = true)
    (hchanged : string (fieldOf slot "digest") ≠ some current.outputDigest) (hdigest : digest = slotDigest shown)
    (h : tellCompletion (replaceRoutine state { current with outputDigest := digest }) current value
      (completed value) now (fieldOf slot "output") entropy = .ok next) :
    ∃ updated, routine next value.routineId = .ok updated ∧
      Compared state next.notices value shown current updated.outputDigest := by
  have htold := told_of_tell (routine_redigested hroutine digest) h
  have hnotice := htold.completed_notices ▸ mem_publish.mpr (.inr rfl)
  have htelling : routine next value.routineId =
      .ok { current with outputDigest := digest, failures := 0 } := by
    rw [routine_of_told htold, countedForm_completed]
  refine ⟨_, htelling, ?_⟩
  rw [hdigest]
  exact .published hslot hshown hchanged hnotice rfl hshown

theorem compared_of_completion (hroutine : routine state value.routineId = .ok current)
    (hmode : outputMode current = "changes")
    (h : completion state value (completed value) now shown entropy = .ok next) :
    ∃ updated, routine next value.routineId = .ok updated ∧
      Compared state next.notices value shown current updated.outputDigest := by
  have hmodes : shownModes.contains "changes" = true := by decide
  have hunchanged : isShown
      (outputState (fieldOf (disposition current.plan) "step") "unchanged") = false := rfl
  have hunavailable : isShown
      (outputState (fieldOf (disposition current.plan) "step") "unavailable") = false := rfl
  unfold outputMode at hmode
  simp only [completion, bind_eq_ok, hroutine, Except.ok.injEq, exists_eq_left', hmode, hmodes, if_true,
    showCompletion, beq_self_eq_true, Bool.true_and] at h
  cases hvalid : validShown current value shown with
  | none =>
    simp only [shownOutput, hvalid] at h
    rw [if_neg (by simpa [isShown] using hunavailable)] at h
    exact compared_of_withheld hroutine hunavailable h
  | some slot =>
    simp only [shownOutput, shownDigest, hvalid, Option.bind_some] at h
    by_cases hshown : isShown (fieldOf slot "output") = true
    · rw [if_pos (show (string (fieldOf (fieldOf slot "output") "state") == some "shown") = true
        from hshown)] at h
      by_cases hsame : string (fieldOf slot "digest") = some current.outputDigest
      · rw [if_pos (by simp [hsame])] at h
        split at h
        · cases h
          refine ⟨{ current with failures := 0 },
            routine_replaceRoutine_self hroutine (routine_mem hroutine).2,
            .withheld (fun _ hnotice _ => hnotice) ?_⟩
          intro _ _ _ _
          rw [slotDigest_of_valid hvalid, hsame]
          rfl
        · exact compared_of_withheld hroutine hunchanged h
      · have hdiffers : ¬((string (fieldOf slot "digest")).any fun digest =>
            digest == current.outputDigest) = true := by
          cases hdigest : string (fieldOf slot "digest") with
          | none => simp
          | some digest =>
            rw [hdigest] at hsame
            simpa using hsame
        rw [if_neg hdiffers] at h
        exact compared_of_published hroutine hvalid hshown hsame
          (slotDigest_of_valid hvalid).symm h
    · rw [if_neg (show ¬(string (fieldOf (fieldOf slot "output") "state") == some "shown") = true
        from hshown)] at h
      exact compared_of_withheld hroutine (Bool.eq_false_iff.mpr hshown) h

section

variable (hcompletes : call.completes = some (runId, shown)) (h : apply state call = .ok next)

include hcompletes h

theorem completing_of_ok : ∃ value told now, run state runId = .ok value ∧
      completion state value (completed value) now shown call.entropy = .ok told ∧
      next = ended (dropRun told runId) value now := by
  obtain ⟨action, entropy⟩ := call
  cases action with
  | finish id lease now slot =>
    cases hcompletes
    simp only [apply, finish, bind_eq_ok, liveLease_eq_ok] at h
    obtain ⟨value, ⟨hrun, -⟩, hok⟩ := h
    obtain ⟨told, hcompletion, rfl⟩ := completedRun_of_ok hrun hok
    exact ⟨value, told, now, hrun, hcompletion, rfl⟩
  | completeRecovered id leaseSha256 now slot =>
    cases hcompletes
    simp only [apply, completeRecovered, bind_eq_ok, readLease_eq_ok] at h
    obtain ⟨value, ⟨hrun, -⟩, hok⟩ := h
    obtain ⟨told, hcompletion, rfl⟩ := completedRun_of_ok hrun hok
    exact ⟨value, told, now, hrun, hcompletion, rfl⟩
  | _ => cases hcompletes

/-- The Routines an applied completing call leaves: those of the run's Routine with the same plan, and
the others as they were. -/
theorem completing_routines (hrun : run state runId = .ok value) :
    ∃ current updated, routine state value.routineId = .ok current ∧
      updated.routineId = value.routineId ∧ updated.plan = current.plan ∧
      next.routines = replaceFirst Routine.routineId updated state.routines := by
  obtain ⟨found, told, now, hfound, hcompletion, rfl⟩ := completing_of_ok hcompletes h
  obtain rfl := Except.ok.inj (hfound.symm.trans hrun)
  obtain ⟨current, hroutine, hcompleted⟩ := completion_of_ok hcompletion
  obtain ⟨updated, hto, htold⟩ := hcompleted.routines
  have hid : updated.routineId = found.routineId := hto.routineId.trans (routine_mem hroutine).2
  refine ⟨current, rebased now updated, hroutine, (rebased_routineId updated).trans hid, ?_,
    dropped_routines htold hroutine hid⟩
  exact plan_eq_of_definition ((rebased_definition updated).trans hto.definition)

theorem compared_of_ok (hrun : run state runId = .ok value) (hroutine : routine state value.routineId = .ok current)
    (hmode : outputMode current = "changes") : ∃ updated, routine next value.routineId = .ok updated ∧
      Compared state next.notices value shown current updated.outputDigest := by
  obtain ⟨found, told, now, hfound, hcompletion, rfl⟩ := completing_of_ok hcompletes h
  obtain rfl := Except.ok.inj (hfound.symm.trans hrun)
  obtain ⟨updated, hupdated, hcompared⟩ := compared_of_completion hroutine hmode hcompletion
  have hdropped : routine (dropRun told runId) found.routineId = .ok updated := hupdated
  refine ⟨rebased now updated, ?_, ?_⟩
  · rw [ended_of_routine hdropped]
    exact routine_replaceRoutine_self hdropped
      ((rebased_routineId updated).trans (routine_mem hdropped).2)
  · rw [ended_notices, rebased_outputDigest]
    exact hcompared

end

end

section

/-- Whether a completed run's Routine is the one, when the run is found. -/
theorem showsFor_of_run (hrun : run state runId = .ok value) :
    showsFor state next runId routineId = true ↔ value.routineId = routineId ∧
      ∃ notice ∈ next.notices, notice.noticeId = runId ∧ notice.shows = true := by
  unfold showsFor
  rw [hrun]
  simp [Except.toOption]

variable [Platform]

/-- A defined revision starts a fresh comparison. -/
theorem outputDigest_of_defines (hdefines : call.defines = some routineId) (h : apply state call = .ok next) :
    ∃ value, routine next routineId = .ok value ∧ value.outputDigest = "" := by
  obtain ⟨action, entropy⟩ := call
  cases action with
  | create value now usage steps =>
    cases hdefines
    obtain ⟨id, hadded, -, -, rfl⟩ := create_of_ok h
    have hself : routine { state with routines := state.routines ++ [admittedForm value 1] }
        value.routineId = .ok (admittedForm value 1) := routine_append_new hadded.fresh
    exact ⟨admittedForm value 1, hself, rfl⟩
  | update value expectedRevision now =>
    cases hdefines
    obtain ⟨current, id, hchangeable, -, -, -, -, -, rfl⟩ := update_of_ok h
    exact ⟨updatedForm value current, routine_replaceRoutine_self hchangeable.routine rfl, rfl⟩
  | refine value expectedRevision now =>
    cases hdefines
    obtain ⟨current, id, hchangeable, -, -, -, -, -, rfl⟩ := refine_of_ok h
    exact ⟨refinedForm value current, routine_replaceRoutine_self hchangeable.routine
      (routine_mem hchangeable.routine).2, rfl⟩
  | _ => cases hdefines

def Recorded (calls : List Call) (state : TeamRoutines) : Prop :=
  ∀ value ∈ state.routines, outputMode value = "changes" → value.outputDigest = lastShown value.routineId calls

theorem recorded_of_completing (hrecorded : Recorded calls (after calls))
    (hcompletes : call.completes = some (runId, shown)) (h : apply (after calls) call = .ok next)
    {value} (hvalue : value ∈ next.routines) (hmode : outputMode value = "changes") :
    value.outputDigest = if showsFor (after calls) next runId value.routineId then slotDigest shown
      else lastShown value.routineId calls := by
  have hexclusive := exclusive_after calls
  obtain ⟨found, -, -, hrun, -⟩ := completing_of_ok hcompletes h
  obtain ⟨current, updated, hroutine, hid, hplan, hroutines⟩ := completing_routines hcompletes h hrun
  have hmem := hvalue
  rw [hroutines, mem_replaceFirst hexclusive.ids] at hmem
  rcases hmem with ⟨rfl, -⟩ | ⟨hbefore, hother⟩
  · have hsame : outputMode current = "changes" := by
      unfold outputMode at hmode ⊢
      rwa [← hplan]
    obtain ⟨hlisted, hcurrentId⟩ := routine_mem hroutine
    have hlast := hrecorded current hlisted hsame
    rw [hcurrentId, ← hid] at hlast
    obtain ⟨left, hleft, hcompared⟩ := compared_of_ok hcompletes h hrun hroutine hsame
    obtain ⟨hleftMem, hleftId⟩ := routine_mem hleft
    obtain rfl := eq_of_key_eq (exclusive_of_ok hexclusive h).ids hvalue hleftMem
      (hid.trans hleftId.symm)
    have hfoundId := (run_mem hrun).2
    rw [← hlast]
    generalize value.outputDigest = digest at hcompared
    cases hcompared with
    | withheld _ hown =>
      split
      · rename_i hshows
        obtain ⟨-, notice, hnotice, hnoticeId, hnoticeShows⟩ := (showsFor_of_run hrun).mp hshows
        exact (hown notice hnotice (hnoticeId.trans hfoundId.symm) hnoticeShows).symm
      · rfl
    | published _ _ _ hnotice hnoticeId hnoticeShows =>
      rw [if_pos ((showsFor_of_run hrun).mpr ⟨hid.symm, _, hnotice, hnoticeId.trans hfoundId, hnoticeShows⟩)]
  · have hnone : ¬showsFor (after calls) next runId value.routineId = true := by
      intro hshows
      exact hother (((showsFor_of_run hrun).mp hshows).1.symm.trans hid.symm)
    rw [if_neg hnone]
    exact hrecorded value hbefore hmode

theorem recorded_of_ok (hrecorded : Recorded calls (after calls))
    (h : apply (after calls) call = .ok next) : Recorded (calls ++ [call]) next := by
  have hexclusive := exclusive_after calls
  have hnext := exclusive_of_ok hexclusive h
  intro value hvalue hmode
  rw [lastShown_snoc_ok h]
  unfold shownAfter
  by_cases hdefines : call.defines = some value.routineId
  · rw [if_pos hdefines]
    obtain ⟨defined, hdefined, hempty⟩ := outputDigest_of_defines hdefines h
    obtain ⟨hmem, hid⟩ := routine_mem hdefined
    rw [eq_of_key_eq hnext.ids hvalue hmem hid.symm, hempty]
  · rw [if_neg hdefines]
    cases hcompletes : call.completes with
    | none =>
      rcases (changed_of_ok h).routines.steps hexclusive.ids hvalue with
        ⟨item, hitem, hstep⟩ | ⟨created, now, usage, steps, haction, -, rfl⟩
      · have hid := hstep.routineId
        obtain ⟨hplan, hdigest⟩ := hstep.baseline (hid ▸ hdefines) hcompletes
        unfold outputMode at hmode
        rw [hplan] at hmode
        rw [hdigest, hid]
        exact hrecorded item hitem hmode
      · refine absurd ?_ hdefines
        simp [Call.defines, haction, admittedForm, definedForm]
    | some completed =>
      have hcompleting := recorded_of_completing hrecorded hcompletes h hvalue hmode
      dsimp only
      rwa [step_ok h]

/-- Whatever calls were made, the recorded digest is the one last shown. -/
theorem recorded_after (calls) : Recorded calls (after calls) := by
  refine @run_induction _ _ _ apply {} (fun _ => True) Recorded (fun _ _ _ => trivial) ?_ ?_ ?_ calls
    trivial
  · intro value hvalue
    cases hvalue
  · intro calls call refusal _ hrecorded hrefused value hvalue hmode
    rw [lastShown_snoc_error hrefused]
    exact hrecorded value hvalue hmode
  · intro calls call next _ hrecorded h
    exact recorded_of_ok hrecorded h

/-- The digest a Routine that shows only changes records is always the one of the result its notices
showed last since its revision was defined. A completion with that digest shows nothing new; one that
shows a result leaves its digest; and one whose protection is lost, whose result is not there to show,
or whose notice is refused leaves the digest it found. -/
theorem output_baseline_is_last_shown (calls : List Call) :
    (∀ value ∈ (after calls).routines, outputMode value = "changes" →
      value.outputDigest = lastShown value.routineId calls) ∧
    ∀ call runId shown value current, call.completes = some (runId, shown) →
      run (after calls) runId = .ok value → routine (after calls) value.routineId = .ok current →
      outputMode current = "changes" →
      (∀ next, apply (after calls) call = .ok next →
        ∃ updated, routine next value.routineId = .ok updated ∧
          ((shown.bind fun slot => string (fieldOf slot "digest")) = some current.outputDigest →
            ∀ notice ∈ next.notices, notice.shows = true → notice ∈ (after calls).notices) ∧
          (∀ notice ∈ next.notices, notice.shows = true → notice ∉ (after calls).notices →
            updated.outputDigest = slotDigest shown) ∧
          (value.protectionLost = true ∨
              (∀ slot, shown = some slot →
                (fieldOf slot "step" == fieldOf (fieldOf current.plan "output") "step") = true →
                isShown (fieldOf slot "output") = false) →
            updated.outputDigest = current.outputDigest)) ∧
      ∀ refusal, apply (after calls) call = .error refusal → after (calls ++ [call]) = after calls := by
  refine ⟨recorded_after calls, ?_⟩
  intro call runId shown value current hcompletes hrun hroutine hmode
  refine ⟨fun next h => ?_, fun refusal h => ?_⟩
  · obtain ⟨updated, hupdated, hcompared⟩ := compared_of_ok hcompletes h hrun hroutine hmode
    refine ⟨updated, hupdated, ?_⟩
    generalize updated.outputDigest = digest at hcompared
    cases hcompared with
    | withheld hold =>
      refine ⟨fun _ => hold, ?_, fun _ => rfl⟩
      intro notice hnotice hshows hnew
      exact absurd (hold notice hnotice hshows) hnew
    | published hslot hshown hchanged =>
      obtain ⟨hsome, hvalid⟩ := Option.filter_eq_some_iff.mp hslot
      obtain ⟨hstep, hprotected⟩ := Bool.and_eq_true_iff.mp hvalid
      refine ⟨?_, fun _ _ _ _ => rfl, ?_⟩
      · intro hsame
        rw [hsome, Option.bind_some] at hsame
        exact absurd hsame hchanged
      · rintro (hlost | hnone)
        · rw [hlost] at hprotected
          cases hprotected
        · rw [hnone _ hsome hstep] at hshown
          cases hshown
  · unfold after
    rw [runFrom_append, runFrom_cons, runFrom_nil]
    exact step_error h

end

end

def changesMinute : Routine :=
  { sampleRoutine 1 (every 60) 1000 1000 with
    plan := objectOf [("version", int 4), ("timezone", text "UTC"), ("steps", .array [sampleStep]),
      ("output", objectOf [("mode", text "changes"), ("step", text "a")])] }

def sampleSlot (digest : String) : Value :=
  objectOf [("step", text "a"), ("output", objectOf [("step", int 1), ("state", text "shown"),
    ("value", objectOf [("kind", text "null")]), ("truncated", .bool false)]), ("digest", text digest)]

def shownCalls : List Call :=
  [⟨.create changesMinute 1000 none [], draw 1⟩, ⟨.claim 1000 zeros true, draw 2⟩,
    ⟨.finish (drawnId 2) (drawnLease 2) 1001 (some (sampleSlot "d")), draw 3⟩]

attribute [local instance] utcPlatform

theorem changesMinute_added : Added {} changesMinute := by
  have hdefined : Defined changesMinute 1 := by
    constructor
    · decide +kernel
    · decide +kernel
  exact ⟨hdefined, by decide, fun _ hitem => (nomatch hitem), by decide, by decide +kernel⟩

theorem output_baseline_is_last_shown_shown :
    ∃ value ∈ (after shownCalls).routines, outputMode value = "changes" ∧
      value.outputDigest = "d" ∧ lastShown value.routineId shownCalls = "d" := by
  have hvalue : ∃ value ∈ (after shownCalls).routines, outputMode value = "changes" ∧
      value.outputDigest = "d" := by
    rw [shownCalls, after_create changesMinute_added]
    decide +kernel
  obtain ⟨value, hmem, hmode, hdigest⟩ := hvalue
  have hlast := (output_baseline_is_last_shown shownCalls).1 value hmem hmode
  exact ⟨value, hmem, hmode, hdigest, hlast.symm.trans hdigest⟩

end ShimpzTeams.Routines
