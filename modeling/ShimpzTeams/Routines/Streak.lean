import ShimpzTeams.Routines.Settled

/-!
# The failure streak of a Routine

A Routine's streak of failed runs never passes three, and at three the Routine is
paused with no live run left to fail again. So every notice of a streak is a
valid one.
-/

namespace ShimpzTeams.Routines

open StrictJson Protocol Library List

variable {state next : TeamRoutines} {call : Call}
variable {current item updated : Routine} {now : Int} {value : Run} {outcome : String}

/-- A Routine's streak within its bounds: at the bound, the Routine is paused and none of its runs
is live. -/
structure StreakBound (state : TeamRoutines) (item : Routine) : Prop where
  lower : 0 ≤ item.failures
  upper : item.failures ≤ maxFailureStreak
  paused : item.failures = maxFailureStreak → item.paused = true
  idle : item.failures = maxFailureStreak → ∀ value ∈ state.runs, value.status.live = true →
    value.routineId ≠ item.routineId

def Streaks (state : TeamRoutines) : Prop := ∀ item ∈ state.routines, StreakBound state item

theorem streaks_empty : Streaks {} := fun _ hitem => nomatch hitem

section

theorem unpaused_of_routine (hexclusive : Exclusive state) {routineId}
    (hroutine : routine state routineId = .ok current) (hunpaused : current.paused = false)
    (hitem : item ∈ state.routines) (hid : item.routineId = routineId) : item.paused = false := by
  obtain ⟨hmem, hcurrent⟩ := routine_mem hroutine
  rw [eq_of_key_eq hexclusive.ids hitem hmem (hid.trans hcurrent.symm)]
  exact hunpaused

variable [Platform]

theorem Moved.paused {value} (h : Moved now item value) :
    value.paused = item.paused ∧ value.failures = item.failures := by
  cases h <;> exact ⟨rfl, rfl⟩

theorem SweptTo.paused {value} (h : SweptTo now item value) :
    value.paused = item.paused ∧ value.failures = item.failures := by
  cases h with
  | continuous => exact ⟨rfl, rfl⟩
  | moved _ hmoved => exact hmoved.paused
  | reported _ hmoved => exact hmoved.paused

theorem Served.paused {due served} (h : Served due now served) :
    served.paused = due.paused ∧ served.failures = due.failures := by
  cases h <;> exact ⟨rfl, rfl⟩

theorem unpaused_of_claimable {swept} (hexclusive : Exclusive state) {long due} (hswept : sweep state now = .ok swept)
    (hsome : claimable swept now long = some due) (hitem : item ∈ state.routines)
    (hid : item.routineId = due.routineId) : item.paused = false := by
  have hclaimable := claimable_of_some hsome
  obtain ⟨other, hother, hto⟩ := exists_left_of_mem (sweep_forall₂ hswept hexclusive.ids) hclaimable.listed
  rw [eq_of_key_eq hexclusive.ids hitem hother (hid.trans hto.routineId), ← hto.paused.1]
  exact hclaimable.unpaused

theorem RunEdit.live {updated} (h : RunEdit call value updated)
    (hlive : updated.status.live = true) : value.status.live = true := by
  cases h with
  | bound | spent | unprotected | incidentSpent | paused => exact hlive
  | frozen hdrives | fenced hdrives => rw [hdrives.status]; rfl
  | thawed hstatus | recovered hstatus => rw [hstatus]; rfl
  | skipped | rerun => cases hlive

theorem RunsChange.live_cases {runs discards}
    (hexclusive : Exclusive state) (h : RunsChange state call runs discards) (hvalue : value ∈ runs)
    (hlive : value.status.live = true) :
    (∃ before ∈ state.runs, before.status.live = true ∧ before.routineId = value.routineId) ∨
      ∀ item ∈ state.routines, item.routineId = value.routineId → item.paused = false := by
  cases h with
  | kept | discarded => exact .inl ⟨value, hvalue, hlive, rfl⟩
  | started _ hswept hsome =>
    rcases mem_append.mp hvalue with hbefore | hnew
    · exact .inl ⟨value, hbefore, hlive, rfl⟩
    · rw [mem_singleton.mp hnew]
      exact .inr fun item hitem hid => unpaused_of_claimable hexclusive hswept hsome hitem hid
  | edited hrun hedit =>
    rcases mem_of_mem_replaceFirst hvalue with rfl | hbefore
    · exact .inl ⟨_, (run_mem hrun).1, hedit.live hlive, hedit.yields.routineId.symm⟩
    · exact .inl ⟨value, hbefore, hlive, rfl⟩
  | indexed | setAside =>
    rcases mem_of_mem_replaceFirst hvalue with rfl | hbefore
    · cases hlive
    · exact .inl ⟨value, hbefore, hlive, rfl⟩
  | reopened _ _ hreopenable =>
    rcases mem_of_mem_replaceFirst hvalue with rfl | hbefore
    · exact .inr fun item hitem hid =>
        unpaused_of_routine hexclusive hreopenable.routine hreopenable.unpaused hitem hid
    · exact .inl ⟨value, hbefore, hlive, rfl⟩
  | ended | released => exact .inl ⟨value, (mem_filter.mp hvalue).1, hlive, rfl⟩

end

/-- A Routine whose streak starts afresh is within its bounds. -/
theorem streakBound_of_zero (h : item.failures = 0) : StreakBound next item := by
  have hne : item.failures ≠ maxFailureStreak := by
    rw [h]
    decide
  refine ⟨h.ge, ?_, fun hstreak => absurd hstreak hne, fun hstreak => absurd hstreak hne⟩
  rw [h]
  decide

theorem Exclusive.idle_without (hexclusive : Exclusive state) (hvalue : value ∈ state.runs)
    (hlive : value.status.live = true) {other}
    (hother : other ∈ state.runs.filter fun item => item.runId != value.runId)
    (hotherLive : other.status.live = true) : other.routineId ≠ value.routineId := by
  intro heq
  obtain ⟨hmem, hne⟩ := mem_filter.mp hother
  have hoccupies : ∀ item : Run, item.status.live = true → item.occupies = true := fun item hitem => by
    simp [Run.occupies, hitem]
  have hsame := eq_of_same_group hexclusive.slots hmem hvalue (hoccupies other hotherLive)
    (hoccupies value hlive) heq
  simp [hsame] at hne

theorem streaked_failed (current : Routine) : (streaked current "failed").1.failures = current.failures + 1 ∧
      (streaked current "failed").1.paused =
        (current.paused || (!current.paused && maxFailureStreak ≤ current.failures + 1)) :=
  ⟨rfl, rfl⟩

theorem streaked_other (h : outcome ≠ "failed") : (streaked current outcome).1.failures = 0 := by
  simp [streaked, h]

theorem StreakBound.fail (hexclusive : Exclusive state) (hbound : StreakBound state current)
    (hvalue : value ∈ state.runs) (hlive : value.status.live = true) (hroutine : current.routineId = value.routineId)
    (hruns : next.runs = state.runs.filter fun item => item.runId != value.runId)
    (hid : updated.routineId = current.routineId)
    (hfailures : updated.failures = current.failures + 1) (hpaused : updated.paused =
      (current.paused || (!current.paused && maxFailureStreak ≤ current.failures + 1))) : StreakBound next updated := by
  have hbelow : current.failures ≠ maxFailureStreak := fun hstreak =>
    hbound.idle hstreak value hvalue hlive hroutine.symm
  have hlower := hbound.lower
  have hupper := hbound.upper
  refine ⟨by omega, by omega, fun hstreak => ?_, ?_⟩
  · have hreached : maxFailureStreak ≤ current.failures + 1 := by omega
    rw [hpaused]
    cases hwas : current.paused with
    | true => rfl
    | false => simpa using hreached
  · intro _ other hother hotherLive heq
    rw [hruns] at hother
    exact hexclusive.idle_without hvalue hlive hother hotherLive (heq.trans (hid.trans hroutine))

theorem CompletedTo.failures {shown} (h : CompletedTo value now shown current updated) : updated.failures = 0 := by
  cases h <;> rfl

theorem Tells.not_streak {runId} (h : Tells call runId outcome now) : outcome ≠ "streak-paused" := by
  cases h with
  | finished houtcome | recovered houtcome =>
    rintro rfl
    exact absurd houtcome (by decide)
  | ended houtcome =>
    rintro rfl
    exact absurd houtcome (by decide)
  | frozen | held | setAside | skipped | rerun | paused => decide

variable [Platform]

theorem StreakBound.keep (hexclusive : Exclusive state) (h : apply state call = .ok next)
    (hitem : item ∈ state.routines) (hbound : StreakBound state item)
    (hid : updated.routineId = item.routineId) (hfailures : updated.failures = item.failures)
    (hpaused : item.paused = true → updated.paused = true) : StreakBound next updated := by
  refine ⟨hfailures ▸ hbound.lower, hfailures ▸ hbound.upper, fun hstreak => ?_, ?_⟩
  · exact hpaused (hbound.paused (hfailures ▸ hstreak))
  · intro hstreak value hvalue hlive heq
    have hitemStreak : item.failures = maxFailureStreak := hfailures ▸ hstreak
    have hroutine : value.routineId = item.routineId := heq.trans hid
    have hchange := runsChange_of_ok hexclusive.shadowed h
    rcases hchange.live_cases hexclusive hvalue hlive with ⟨before, hbefore, hwas, hsame⟩ | hunpaused
    · exact hbound.idle hitemStreak before hbefore hwas (hsame.trans hroutine)
    · have hfalse := hunpaused item hitem hroutine.symm
      rw [hbound.paused hitemStreak] at hfalse
      cases hfalse

theorem endRun_runs {runId detail status entropy} (h : endRun state runId now outcome detail status entropy = .ok next) :
    next.runs = state.runs.filter fun item => item.runId != runId := by
  obtain ⟨found, current, told, hfound, -, htold, rfl⟩ := endRun_of_ok h
  rw [ended_runs, dropRun, htold.onlyTells.runs]

section

variable (hexclusive : Exclusive state) (hstreaks : Streaks state)

include hexclusive hstreaks

theorem StreakBound.ended {detail status entropy}
    (h : apply state ⟨.endRun value.runId now outcome detail status, entropy⟩ = .ok next)
    (hcurrent : current ∈ state.routines) (hrun : run state value.runId = .ok value)
    (hallowed : (allowedOutcomes value.status).contains outcome = true)
    (hroutine : current.routineId = value.routineId) :
    StreakBound next (rebased now (countedForm current outcome)) := by
  have hbound := hstreaks current hcurrent
  cases hcounts : counts outcome with
  | false =>
    rw [countedForm_of_not_counts hcounts]
    refine hbound.keep hexclusive h hcurrent (rebased_routineId current) (rebased_failures current) ?_
    intro hpaused
    rw [rebased_paused, hpaused]
  | true =>
    have hform : countedForm current outcome = (streaked current outcome).1 := by
      rw [countedForm, hcounts]
      rfl
    rw [hform]
    by_cases hfailed : outcome = "failed"
    · subst hfailed
      have hlive : value.status.live = true := by
        rcases allowedOutcomes_status hallowed with hstatus | hstatus <;> rw [hstatus] <;> rfl
      refine hbound.fail hexclusive (run_mem hrun).1 hlive hroutine (endRun_runs h) ?_ ?_ ?_
      · rw [rebased_routineId, streaked_routineId]
      · rw [rebased_failures, (streaked_failed current).1]
      · rw [rebased_paused, (streaked_failed current).2]
    · refine streakBound_of_zero ?_
      rw [rebased_failures, streaked_other hfailed]

theorem RoutineEdit.streakBound (h : apply state call = .ok next) (hcurrent : current ∈ state.routines)
    (hedit : RoutineEdit state call current updated) : StreakBound next updated := by
  have hbound := hstreaks current hcurrent
  cases hedit with
  | updated | refined => exact streakBound_of_zero rfl
  | @paused _ paused =>
    cases paused with
    | true => exact hbound.keep hexclusive h hcurrent rfl rfl fun _ => rfl
    | false => exact streakBound_of_zero rfl
  | deleting | reconfirm => exact hbound.keep hexclusive h hcurrent rfl rfl id
  | settled =>
    refine hbound.keep hexclusive h hcurrent (rebased_routineId current) (rebased_failures current) ?_
    intro hpaused
    rw [rebased_paused, hpaused]
  | ended hrun hallowed hroutine =>
    exact StreakBound.ended hexclusive hstreaks h hcurrent hrun hallowed hroutine
  | finished _ _ _ hcompleted | recovered _ _ _ hcompleted =>
    refine streakBound_of_zero ?_
    rw [rebased_failures, hcompleted.failures]
  | rerun => exact streakBound_of_zero rfl
  | incidentPaused => exact hbound.keep hexclusive h hcurrent rfl rfl fun _ => rfl

theorem StreakBound.sweep {swept} (h : apply state call = .ok next)
    (hswept : Routines.sweep state now = .ok swept) (hitem : item ∈ swept.routines)
    (hid : updated.routineId = item.routineId) (hfailures : updated.failures = item.failures)
    (hpaused : updated.paused = item.paused) : StreakBound next updated := by
  obtain ⟨before, hbefore, hto⟩ := exists_left_of_mem (sweep_forall₂ hswept hexclusive.ids) hitem
  refine (hstreaks before hbefore).keep hexclusive h hbefore (hid.trans hto.routineId)
    (hfailures.trans hto.paused.2) fun hwas => ?_
  rw [hpaused, hto.paused.1, hwas]

theorem streaks_of_ok (h : apply state call = .ok next) : Streaks next := by
  intro item hitem
  have hkeep : item ∈ state.routines → StreakBound next item := fun hmem =>
    (hstreaks item hmem).keep hexclusive h hmem rfl rfl id
  have hchange := (changed_of_ok h).routines
  generalize next.routines = routines at hitem hchange
  cases hchange with
  | kept => exact hkeep hitem
  | created =>
    rcases mem_append.mp hitem with hmem | hnew
    · exact hkeep hmem
    · rw [mem_singleton.mp hnew]
      exact streakBound_of_zero rfl
  | deleted => exact hkeep (mem_filter.mp hitem).1
  | edited hroutine hedit =>
    rcases mem_of_mem_replaceFirst hitem with rfl | hmem
    · exact hedit.streakBound hexclusive hstreaks h (routine_mem hroutine).1
    · exact hkeep hmem
  | swept hswept | idle hswept =>
    exact StreakBound.sweep hexclusive hstreaks h hswept hitem rfl rfl rfl
  | requested hswept hsome =>
    rcases mem_of_mem_replaceFirst hitem with rfl | hmem
    · exact StreakBound.sweep hexclusive hstreaks h hswept (claimable_of_some hsome).listed rfl rfl
        rfl
    · exact StreakBound.sweep hexclusive hstreaks h hswept hmem rfl rfl rfl
  | fired hswept hsome _ hserved =>
    rcases mem_of_mem_replaceFirst hitem with rfl | hmem
    · have hsame := hserved.paused
      exact StreakBound.sweep hexclusive hstreaks h hswept (claimable_of_some hsome).listed
        hserved.routineId hsame.2 hsame.1
    · exact StreakBound.sweep hexclusive hstreaks h hswept hmem rfl rfl rfl

end

/-- Every reachable state keeps the streaks within their bounds. -/
theorem streaks_after (calls : List Call) : Streaks (after calls) :=
  run_invariant_with exclusive_after (fun _ _ _ => streaks_of_ok) streaks_empty calls

/-- The notice of a streak that a Routine in its bounds reaches is a valid one. -/
theorem StreakBound.exactDetail (hbound : StreakBound state current) (hstreak : (streaked current "failed").2 = true) :
    Protocol.exactDetail "streak-paused"
      (objectOf [("failures", int (streaked current "failed").1.failures)]) = true := by
  have hreached : current.paused = false ∧ maxFailureStreak ≤ current.failures + 1 := by
    simpa [streaked] using hstreak
  have hbelow : current.failures ≠ maxFailureStreak := fun heq => by
    have hpaused := hbound.paused heq
    rw [hreached.1] at hpaused
    cases hpaused
  have hupper := hbound.upper
  have hfailures : current.failures + 1 = maxFailureStreak := by omega
  rw [(streaked_failed current).1, hfailures]
  rfl

/-- A notice put in vain is no streak's, or it is a valid one that found no room. -/
theorem Puts.not_streak (hstreaks : Streaks state) {before notice}
    (hputs : Puts state call notice) (hinvalid : Unpublishable before notice .noticeInvalid) :
    notice.outcome ≠ "streak-paused" := by
  cases hputs with
  | told htells => exact htells.not_streak
  | streak hcurrent hstreak =>
    have hexact := (hstreaks _ hcurrent).exactDetail hstreak
    cases hinvalid with
    | detail hdetail => exact absurd (hexact.symm.trans hdetail) (by decide)
    | version hversion => exact absurd (hversion : (1 : Int) < 1) (lt_irrefl 1)
  | created => exact (by decide : "created" ≠ "streak-paused")
  | updated | refined => exact (by decide : "changed" ≠ "streak-paused")
  | deleted => exact (by decide : "deleted" ≠ "streak-paused")
  | scopeChanged => exact (by decide : "scope-changed" ≠ "streak-paused")
  | swept | claimed => exact (by decide : "skipped" ≠ "streak-paused")
  | rolled => exact (by decide : "healthy" ≠ "streak-paused")

end ShimpzTeams.Routines
