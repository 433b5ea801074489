import ShimpzTeams.Routines.Sweeps

/-!
# Where a notice is refused, and why a sweep is not

For every transition, a refusal that comes from the notices names the notice it could
not put and the state it could not put it in. A sweep leaves every Routine with
nothing left to skip or to report at its instant. So a second sweep changes nothing,
and the claim after it starts the Routine the swept state names.
-/

namespace ShimpzTeams.Routines

open StrictJson Protocol Library

def RoutineStateError.ofNotice (refusal : RoutineStateError) : Bool :=
  refusal == .noticeInvalid || refusal == .noticesFull

section

variable [Platform] {state next : TeamRoutines} {call : Call} {entropy : Entropy} {now : Int}
  {refusal : RoutineStateError}
variable {value : Run} {outcome runId incidentId : String} {detail : Value} {current : Routine} {shown : Option Value}

variable {other : RoutineStateError} {cause : RoutineStateError → Prop} {α β : Type}

section

omit [Platform]

theorem streaked_failed_only (hstreak : (streaked current outcome).2 = true) : outcome = "failed" := by
  by_contra hother
  have hzero : decide (maxFailureStreak ≤ 0) = false := by decide
  simp [streaked, hother, hzero] at hstreak

theorem completed_cases (value) : completed value = "done" ∨ completed value = "recovered" := by
  unfold completed
  split
  · exact .inl rfl
  · exact .inr rfl

theorem allowedOutcomes_cases {status} (hallowed : (allowedOutcomes status).contains outcome = true) :
    outcome = "stopped" ∨ outcome = "failed" ∨ outcome = "denied" := by
  cases status with
  | leased | frozen =>
    simp only [allowedOutcomes, frozenOutcomes, List.contains_iff_mem, List.mem_cons,
      List.not_mem_nil, or_false] at hallowed
    tauto
  | held | unresolved | skipped => cases hallowed

/-- Whenever the computation refuses for a notice, there is a cause. -/
def Tries (cause : RoutineStateError → Prop) (computation : Transition α) : Prop :=
  ∀ refusal, refusal.ofNotice = true → Blames refusal (cause refusal) computation

@[simp] theorem ofNotice_eq_true : other.ofNotice = true ↔ other = .noticeInvalid ∨ other = .noticesFull := by
  simp [RoutineStateError.ofNotice]

@[simp] theorem tries_ok (value : α) : Tries cause (.ok value) := nofun

@[simp] theorem tries_error : Tries cause (.error other : Transition α) ↔ (other.ofNotice = true → cause other) := by
  constructor
  · intro h hnotice
    exact h other hnotice rfl
  · intro h refusal hnotice hrefused
    cases hrefused
    exact h hnotice

@[simp] theorem tries_bind {computation : Transition α} {next : α → Transition β} : Tries cause (computation >>= next) ↔
      Tries cause computation ∧ ∀ value, computation = .ok value → Tries cause (next value) := by
  cases computation with
  | error refusal => simp [Tries, Blames, bind, Except.bind]
  | ok value => simp [ok_bind]

@[simp] theorem tries_map {computation} {f : α → β} : Tries cause (computation.map f) ↔ Tries cause computation := by
  simp only [Tries, Blames, map_eq_error]

@[simp] theorem tries_ite {condition} [Decidable condition] {first second : Transition α} :
    Tries cause (if condition then first else second) ↔
      (condition → Tries cause first) ∧ (¬condition → Tries cause second) := by
  by_cases h : condition <;> simp [h]

@[simp] theorem tries_found {value : Option α} :
    Tries cause (found other value) ↔ (value = none → other.ofNotice = true → cause other) := by
  cases value <;> simp [found]

@[simp] theorem tries_routine {routineId} : Tries cause (routine state routineId) := by simp [routine]

@[simp] theorem tries_run : Tries cause (run state runId) := by simp [run]

@[simp] theorem tries_incident : Tries cause (incident state incidentId) := by simp [incident]

@[simp] theorem tries_newId : Tries cause (newId entropy) := by
  unfold newId
  cases entropy.id <;> simp

@[simp] theorem tries_newToken : Tries cause (newToken entropy) := by
  unfold newToken
  cases entropy.token <;> simp

@[simp] theorem tries_leased : Tries cause (leased state runId) := by simp [leased]

@[simp] theorem tries_liveLease {lease} : Tries cause (liveLease state runId lease now) := by
  simp [liveLease, requireLease]

@[simp] theorem tries_readLease {leaseSha256} : Tries cause (readLease state runId leaseSha256) := by
  simp [readLease]

@[simp] theorem tries_unresolvedIncident : Tries cause (unresolvedIncident state incidentId) := by
  simp [unresolvedIncident]

@[simp] theorem tries_expect {expected} : Tries cause (expect state value expected) := by
  cases expected <;> simp [expect]

@[simp] theorem tries_setPaused {routineId paused} : Tries cause (setPaused state routineId paused) := by
  simp [setPaused]

@[simp] theorem tries_withoutRun : Tries cause (withoutRun state runId now) := by simp [withoutRun]

@[simp] theorem tries_changeable {routineId revision} : Tries cause (changeable state routineId revision) := by
  simp [changeable]

end

@[simp] theorem tries_budgets {others value} : Tries cause (budgets others value) := by
  unfold budgets overBudget
  split
  · rename_i refused hrefused
    split at hrefused
    · cases hrefused
      simp
    · split at hrefused
      · cases hrefused
        simp
      · cases hrefused
  · simp

@[simp] theorem tries_nextAfter {value after} : Tries cause (nextAfter value after) := by simp [nextAfter]

@[simp] theorem tries_countFrom {value limit fuel count first} :
    Tries cause (countFrom value limit fuel count first) := by
  induction fuel generalizing count first with
  | zero => simp [countFrom]
  | succ fuel ih => simp [countFrom, ih]

@[simp] theorem tries_countBefore {value first limit} : Tries cause (countBefore value first limit) := by
  simp [countBefore]

@[simp] theorem tries_serve {due} : Tries cause (serve due now) := by simp [serve_eq]

@[simp] theorem tries_lease {due keyFingerprint} : Tries cause (lease state due now keyFingerprint entropy) := by
  simp [lease]

@[simp] theorem tries_firstRun {value} : Tries cause (firstRun value) := by simp [firstRun]

@[simp] theorem tries_defined {value revision} : Tries cause (defined value revision) := by simp [defined]

@[simp] theorem tries_admitted {value revision} : Tries cause (admitted value revision) := by simp [admitted]

@[simp] theorem tries_addRoutine {value} : Tries cause (addRoutine state value) := by simp [addRoutine]

@[simp] theorem tries_humanLeased : Tries cause (humanLeased value now entropy) := by simp [humanLeased]

inductive Unpublishable (state : TeamRoutines) (notice : Notice) : RoutineStateError → Prop where
  | detail (hdetail : exactDetail notice.outcome notice.detail = false) :
      Unpublishable state notice .noticeInvalid
  | version (hversion : notice.version < 1) : Unpublishable state notice .noticeInvalid
  | full (hfull : maxUndeliveredNotices + maxRoutineNotices ≤
      (state.notices.filter fun item => item.noticeId != notice.noticeId).length) :
      Unpublishable state notice .noticesFull

theorem unpublishable_of_error {notice} (h : refusal.ofNotice = true)
    (hput : putNotice state notice = .error refusal) : Unpublishable state notice refusal := by
  unfold putNotice at hput
  rcases bind_eq_error.mp hput with hdetail | ⟨detail, hdetail, hput⟩
  · have hnone : canonicalNoticeDetail (text notice.outcome) notice.detail = none ∧
        refusal = .noticeInvalid := by
      cases hcanonical : canonicalNoticeDetail (text notice.outcome) notice.detail with
      | none =>
        rw [hcanonical] at hdetail
        exact ⟨rfl, (Except.error.inj hdetail).symm⟩
      | some value =>
        rw [hcanonical] at hdetail
        cases hdetail
    obtain ⟨hnone, rfl⟩ := hnone
    refine .detail ?_
    by_contra hexact
    simp [canonicalNoticeDetail, text, string, hexact] at hnone
  · have hname : Tries (fun _ => False) (noticeName state notice) := by simp [noticeName]
    obtain ⟨name, -, hput⟩ := (bind_eq_error.mp hput).resolve_left (hname refusal h)
    split at hput
    · rename_i hversion
      cases hput
      exact .version hversion
    · dsimp only at hput
      split at hput
      · rename_i hfull
        cases hput
        exact .full hfull
      · cases hput

inductive Tells : Call → String → String → Int → Prop where
  | frozen {runId lease now request entropy} :
      Tells ⟨.freeze runId lease now request, entropy⟩ runId "frozen" now
  | held {runId now step entropy} :
      Tells ⟨.settleHold runId now step, entropy⟩ runId "held" now
  | setAside {runId now step entropy} :
      Tells ⟨.settleHold runId now step, entropy⟩ runId "user-skipped" now
  | skipped {incidentId now expected entropy} :
      Tells ⟨.skipIncident incidentId now expected, entropy⟩ incidentId "user-skipped" now
  | rerun {incidentId now expected entropy} :
      Tells ⟨.runIncident incidentId now expected, entropy⟩ incidentId "user-skipped" now
  | paused {incidentId now reason entropy} :
      Tells ⟨.pauseIncident incidentId now reason, entropy⟩ incidentId "paused" now
  | finished {runId lease now shown entropy outcome} (houtcome : outcome = "done" ∨ outcome = "recovered") :
      Tells ⟨.finish runId lease now shown, entropy⟩ runId outcome now
  | recovered {runId leaseSha256 now shown entropy outcome} (houtcome : outcome = "done" ∨ outcome = "recovered") :
      Tells ⟨.completeRecovered runId leaseSha256 now shown, entropy⟩ runId outcome now
  | ended {runId outcome now detail status entropy}
      (houtcome : outcome = "stopped" ∨ outcome = "failed" ∨ outcome = "denied") :
      Tells ⟨.endRun runId now outcome detail status, entropy⟩ runId outcome now

inductive Puts (state : TeamRoutines) : Call → Notice → Prop where
  | created {value now usage steps entropy id} :
      Puts state ⟨.create value now usage steps, entropy⟩ (createdNotice id value now usage steps)
  | updated {value expectedRevision now entropy id} :
      Puts state ⟨.update value expectedRevision now, entropy⟩
        (routineNotice id value.routineId "changed" now (objectOf []))
  | refined {value expectedRevision now entropy id} :
      Puts state ⟨.refine value expectedRevision now, entropy⟩
        (routineNotice id value.routineId "changed" now (objectOf []))
  | deleted {routineId now entropy id} :
      Puts state ⟨.completeDelete routineId now, entropy⟩
        (routineNotice id routineId "deleted" now (objectOf []))
  | scopeChanged {routineId now entropy id} :
      Puts state ⟨.markScopeChanged routineId now, entropy⟩
        (routineNotice id routineId "scope-changed" now (objectOf []))
  | swept {now : Int} {entropy value} :
      Puts state ⟨.sweep now, entropy⟩ (gapNotice value now)
  | claimed {now keyFingerprint long entropy value} :
      Puts state ⟨.claim now keyFingerprint long, entropy⟩ (gapNotice value now)
  | told {call : Call} {value outcome now detail} (htells : Tells call value.runId outcome now) :
      Puts state call (outcomeNotice value outcome now detail)
  | rolled {call : Call} {current value now} (htells : Tells call value.runId "done" now) :
      Puts state call (rollupNotice current value now)
  | streak {current runId now detail status entropy id}
      (hcurrent : current ∈ state.routines) (hstreak : (streaked current "failed").2 = true) :
      Puts state ⟨.endRun runId now "failed" detail status, entropy⟩
        (streakNotice id (streaked current "failed").1 now)

def Blamed (state : TeamRoutines) (call : Call) (refusal : RoutineStateError) : Prop :=
  ∃ before notice, Puts state call notice ∧ Unpublishable before notice refusal

variable {before : TeamRoutines}

theorem tries_putNotice {notice} (hputs : Puts state call notice) :
    Tries (Blamed state call) (putNotice before notice) :=
  fun _ h hput => ⟨before, notice, hputs, unpublishable_of_error h hput⟩

theorem tries_runNotice (hown : Puts state call (outcomeNotice value outcome now detail))
    (hstreak : ∀ current id, routine before value.routineId = .ok current → counts outcome = true →
      (streaked current outcome).2 = true → Puts state call (streakNotice id (streaked current outcome).1 now)) :
    Tries (Blamed state call) (runNotice before value outcome now detail entropy) := by
  simp only [runNotice, countStreak, tries_bind, tries_ite, tries_ok, tries_routine, tries_newId, true_and,
    implies_true, and_true]
  refine ⟨tries_putNotice hown, fun published hput hcounts found hfound hreached id _ => ?_⟩
  obtain ⟨current, hcurrent, -, rfl⟩ := (putNotice_eq_ok rfl).mp hput
  obtain rfl := Except.ok.inj (hcurrent.symm.trans hfound)
  exact tries_putNotice (hstreak current id hcurrent hcounts hreached)

theorem tries_runNotice_uncounted (htells : Tells call value.runId outcome now) (hcounts : counts outcome = false) :
    Tries (Blamed state call) (runNotice before value outcome now detail entropy) :=
  tries_runNotice (.told htells) fun _ _ _ hcounted => absurd (hcounts.symm.trans hcounted) Bool.false_ne_true

theorem tries_healthy (htells : Tells call value.runId "done" now) :
    Tries (Blamed state call) (healthy before value now) := by
  simp [healthy, tries_putNotice (.rolled htells)]

theorem tries_completedRun (htells : ∀ outcome, outcome = "done" ∨ outcome = "recovered" →
      Tells call value.runId outcome now) :
    Tries (Blamed state call) (completedRun before value now shown entropy) := by
  have htell (told : TeamRoutines) (current : Routine) (output : Value) :
      Tries (Blamed state call) (tellCompletion told current value (completed value) now output entropy) := by
    refine tries_map.mpr (tries_runNotice (.told (htells _ (completed_cases value))) ?_)
    intro current id _ _ hreached
    have hfailed := streaked_failed_only hreached
    rcases completed_cases value with hdone | hrecovered
    · exact absurd (hdone.symm.trans hfailed) (by decide)
    · exact absurd (hrecovered.symm.trans hfailed) (by decide)
  have hrolled : Tries (Blamed state call) (rolledUp before value (completed value) now) := by
    simp [rolledUp, tries_healthy (htells "done" (.inl rfl))]
  refine tries_bind.mpr ⟨tries_bind.mpr ⟨by simp, fun current _ => ?_⟩, by simp⟩
  simp only [showCompletion, tries_ite, tries_bind, htell, hrolled, tries_ok, implies_true, true_and, and_true]
  rintro - - (_ | rolled) - <;> simp

theorem tries_skipIncident {expected} (htells : Tells call incidentId "user-skipped" now) :
    Tries (Blamed state call) (skipIncident before incidentId now expected entropy) := by
  refine tries_bind.mpr ⟨by simp, fun value hincident => ?_⟩
  obtain ⟨-, rfl, -⟩ := incident_mem (unresolvedIncident_eq_ok.mp hincident).1
  simp [tries_runNotice_uncounted htells not_counts_told.2.2.1]

theorem tries_reportGap {value : Routine} {inFlight : Bool}
    (hput : Tries cause (putNotice before (gapNotice value now))) :
    Tries cause (reportGap before value now inFlight) := by
  unfold gapNotice at hput
  simp [reportGap, hput]

theorem tries_sweepRoutine {value} (hreport : ∀ before value, before.notices = state.notices →
      Tries cause (reportGap before value now false)) : Tries cause (sweepRoutine state value now) := by
  have hreported (updated : Routine) : Tries cause (reportGap (replaceRoutine state updated) updated now false) :=
    hreport _ _ rfl
  simp [sweepRoutine, hreported, hreport]

theorem tries_sweepFrom (hputs : ∀ value, Puts state call (gapNotice value now)) (items : List Routine) :
    Tries (Blamed state call) (sweepFrom now before items) := by
  induction items generalizing before with
  | nil => simp [sweepFrom]
  | cons item rest ih =>
    refine tries_bind.mpr ⟨tries_sweepRoutine fun _ value _ => ?_, fun _ _ => ih⟩
    exact tries_reportGap (tries_putNotice (hputs value))

theorem tries_claim {keyFingerprint long} (hputs : ∀ value, Puts state call (gapNotice value now)) :
    Tries (Blamed state call) (claim before now keyFingerprint long entropy) := by
  have hreport (before : TeamRoutines) (value : Routine) (inFlight : Bool) :
      Tries (Blamed state call) (reportGap before value now inFlight) := tries_reportGap (tries_putNotice (hputs value))
  refine tries_ite.mpr ⟨by simp, fun _ => tries_bind.mpr ⟨tries_sweepFrom hputs _, fun swept _ => ?_⟩⟩
  split <;> simp [hreport]

/-- A call refused for a notice tried to put that notice. -/
theorem tries_apply (state : TeamRoutines) (call : Call) : Tries (Blamed state call) (apply state call) := by
  obtain ⟨action, entropy⟩ := call
  cases action with
  | create value now usage steps =>
    exact tries_bind.mpr ⟨by simp, fun _ _ => tries_bind.mpr ⟨by simp, fun _ _ => tries_putNotice .created⟩⟩
  | update value expectedRevision now =>
    refine tries_bind.mpr ⟨by simp, fun current _ => tries_bind.mpr ⟨by simp, fun changed hchanged => ?_⟩⟩
    obtain ⟨-, -, rfl⟩ := admitted_eq_ok.mp hchanged
    exact tries_bind.mpr ⟨by simp, fun _ _ => tries_bind.mpr ⟨by simp, fun _ _ => tries_putNotice .updated⟩⟩
  | refine value expectedRevision now =>
    refine tries_bind.mpr ⟨by simp, fun current hcurrent => tries_ite.mpr ⟨by simp, fun _ =>
      tries_bind.mpr ⟨by simp, fun refined hrefined => ?_⟩⟩⟩
    obtain ⟨-, rfl⟩ := defined_eq_ok.mp hrefined
    have hid : current.routineId = value.routineId := (routine_mem (changeable_eq_ok.mp hcurrent).routine).2
    have hputs (id : String) : Puts state ⟨.refine value expectedRevision now, entropy⟩
        (routineNotice id current.routineId "changed" now (objectOf [])) := hid ▸ .refined
    exact tries_bind.mpr ⟨by simp, fun _ _ => tries_bind.mpr ⟨by simp, fun id _ => tries_putNotice (hputs id)⟩⟩
  | setPaused routineId paused => simp [apply]
  | beginDelete routineId => simp [apply, beginDelete]
  | completeDelete routineId now =>
    exact tries_bind.mpr ⟨by simp, fun _ _ => tries_ite.mpr ⟨by simp, fun _ => tries_bind.mpr ⟨by simp, fun _ _ =>
      tries_bind.mpr ⟨tries_putNotice .deleted, by simp⟩⟩⟩⟩
  | markScopeChanged routineId now =>
    exact tries_bind.mpr ⟨by simp, fun _ _ => tries_bind.mpr ⟨by simp, fun _ _ =>
      tries_bind.mpr ⟨tries_putNotice .scopeChanged, by simp⟩⟩⟩
  | sweep now => exact tries_sweepFrom (fun _ => .swept) _
  | claim now keyFingerprint long => exact tries_map.mpr (tries_claim fun _ => .claimed)
  | bindGeneration runId lease now networkId => simp [apply, bindGeneration]
  | spend runId lease now elapsed => simp [apply, spend]
  | loseProtection runId => simp [apply, loseProtection]
  | freeze runId lease now request =>
    refine tries_bind.mpr ⟨by simp, fun value hlease => ?_⟩
    obtain ⟨-, rfl⟩ := run_mem (liveLease_eq_ok.mp hlease).1
    simp [tries_runNotice_uncounted Tells.frozen not_counts_told.1]
  | thaw runId now requestsUsed => simp [apply, thaw]
  | finish runId lease now shown =>
    refine tries_bind.mpr ⟨by simp, fun value hlease => ?_⟩
    obtain ⟨-, rfl⟩ := run_mem (liveLease_eq_ok.mp hlease).1
    exact tries_completedRun fun _ => .finished
  | endRun runId now outcome detail status =>
    refine tries_bind.mpr ⟨by simp, fun value hrun => tries_ite.mpr ⟨by simp, fun _ =>
      tries_ite.mpr ⟨by simp, fun hallowed => tries_bind.mpr ⟨?_, by simp⟩⟩⟩⟩
    obtain ⟨-, rfl⟩ := run_mem hrun
    refine tries_runNotice (.told (.ended (allowedOutcomes_cases (by simpa using hallowed)))) ?_
    intro current id hroutine _ hreached
    obtain rfl := streaked_failed_only hreached
    exact .streak (routine_mem hroutine).1 hreached
  | completeRecovered runId leaseSha256 now shown =>
    refine tries_bind.mpr ⟨by simp, fun value hlease => ?_⟩
    obtain ⟨-, rfl⟩ := run_mem (readLease_eq_ok.mp hlease).1
    exact tries_completedRun fun _ => .recovered
  | fence runId lease now => simp [apply, fence, held]
  | holdRecovered runId leaseSha256 => simp [apply, holdRecovered, held]
  | settleHold runId now step =>
    refine tries_bind.mpr ⟨by simp, fun value hrun => ?_⟩
    obtain ⟨-, rfl⟩ := run_mem hrun
    simp [tries_runNotice_uncounted Tells.held not_counts_told.2.1, tries_skipIncident Tells.setAside]
  | spendIncident incidentId seconds => simp [apply, spendIncident]
  | reopenIncident incidentId now generation => simp [apply, reopenIncident]
  | skipIncident incidentId now expected => exact tries_skipIncident .skipped
  | runIncident incidentId now expected => simp [apply, runIncident, tries_skipIncident Tells.rerun]
  | pauseIncident incidentId now reason =>
    refine tries_bind.mpr ⟨by simp, fun value hincident => ?_⟩
    obtain ⟨-, rfl, -⟩ := incident_mem (unresolvedIncident_eq_ok.mp hincident).1
    simp [tries_runNotice_uncounted Tells.paused not_counts_told.2.2.2]
  | releaseIncident incidentId =>
    simp only [apply, releaseIncident]
    split <;> simp
  | acknowledge delivered => simp [apply]
  | discarded runId generation => simp [apply]

theorem puts_of_refused (h : refusal.ofNotice = true) (hrefused : apply state call = .error refusal) :
    ∃ before notice, Puts state call notice ∧ Unpublishable before notice refusal :=
  tries_apply state call refusal h hrefused

end

open List

theorem OnlyTells.others {state next} (h : OnlyTells state next) :
    next = { state with routines := next.routines, notices := next.notices } := by
  obtain ⟨hruns, hdiscards, hstarts, hserved, -⟩ := h
  cases next
  cases state
  simp_all

variable [Platform] {state next : TeamRoutines} {now : Int} {item value : Routine}

def noticeIds (state : TeamRoutines) : List String := state.notices.map Notice.noticeId

theorem mayReport_eq_false : mayReport state value false = false ↔
      gapNoticeId value ∉ noticeIds state ∧ maxUndeliveredNotices ≤ (noticeIds state).length := by
  unfold mayReport undelivered noticeIds
  rw [Bool.or_eq_false_iff, Bool.or_false, decide_eq_false_iff_not, not_lt, length_map, any_eq_false, mem_map]
  simp

omit [Platform] in
/-- A notice in the place of a pending one leaves the same ids. -/
theorem noticeIds_publish_perm {notice} (hdistinct : (noticeIds state).Nodup)
    (hpending : notice.noticeId ∈ noticeIds state) : (noticeIds (publish state notice)).Perm (noticeIds state) := by
  have hkept : (state.notices.filter fun kept => kept.noticeId != notice.noticeId).map
      Notice.noticeId = (noticeIds state).erase notice.noticeId := by
    rw [hdistinct.erase_eq_filter, noticeIds, filter_map]
    rfl
  unfold noticeIds at hkept ⊢
  rw [publish_notices, map_append, hkept]
  exact (perm_append_comm.trans (perm_cons_erase hpending).symm)

/-- A report leaves no room to a gap it found no room for. -/
theorem Reported.mayReport_eq_false (h : Reported state value now false next)
    (hfitting : Fitting state.notices) (hroom : mayReport state item false = false) :
    mayReport next item false = false := by
  cases h with
  | nothing | noRoom => exact hroom
  | @reported current _ hmay _ _ =>
    obtain ⟨habsent, hfull⟩ := Routines.mayReport_eq_false.mp hroom
    have hpending : gapNoticeId value ∈ noticeIds state := by
      by_contra hnot
      rw [Routines.mayReport_eq_false.mpr ⟨hnot, hfull⟩] at hmay
      cases hmay
    have hperm : (noticeIds (publish state ((gapNotice value now).named current))).Perm
        (noticeIds state) :=
      noticeIds_publish_perm hfitting.distinct hpending
    refine Routines.mayReport_eq_false.mpr ⟨fun hmem => habsent (hperm.mem_iff.mp hmem), ?_⟩
    exact hfull.trans_eq hperm.length_eq.symm

theorem Settled.of_reported {before} (h : Settled state now item)
    (hreport : Reported before value now false next) (hnotices : before.notices = state.notices)
    (hfitting : Fitting state.notices) : Settled next now item := by
  have hsame : mayReport before item false = mayReport state item false := by
    unfold mayReport undelivered
    rw [hnotices]
  refine h.imp_right fun ⟨hcurrent, htold⟩ => ⟨hcurrent, htold.imp_right fun hroom => ?_⟩
  exact hreport.mayReport_eq_false (hnotices ▸ hfitting) (hsame.trans hroom)

theorem Settled.of_swept (h : Settled state now item) (hswept : SweptRoutine state value now next)
    (hfitting : Fitting state.notices) : Settled next now item := by
  cases hswept with
  | continuous => exact h
  | current _ _ hreport => exact h.of_reported hreport rfl hfitting
  | late _ _ _ hreport => exact h.of_reported hreport rfl hfitting

theorem sweep_settled (h : sweep state now = .ok next)
    (hids : (state.routines.map Routine.routineId).Nodup) (hfitting : Fitting state.notices) :
    ∀ item ∈ next.routines, Settled next now item := by
  refine (sweep_induct (motive := fun _ done state =>
    Fitting state.notices ∧ ∀ item ∈ done, Settled state now item) ?_ h hids ?_).2
  · intro seen done state item next value ⟨hfitting, hdone⟩ hvisited
    refine ⟨hvisited.swept.posted.fitting hfitting, fun other hother => ?_⟩
    rcases mem_append.mp hother with hother | hother
    · exact (hdone other hother).of_swept hvisited.swept hfitting
    · exact mem_singleton.mp hother ▸ hvisited.settled
  · exact ⟨hfitting, fun _ hitem => nomatch hitem⟩

theorem reportGap_of_noRoom (hroom : mayReport state value false = false) :
    reportGap state value now false = .ok state := by
  unfold mayReport at hroom
  unfold reportGap
  simp only [hroom, Bool.not_false, if_true, ite_self]

theorem Settled.sweepRoutine_eq (h : Settled state now item) : sweepRoutine state item now = .ok state := by
  unfold sweepRoutine
  rcases h with hcontinuous | ⟨hcurrent, htold⟩
  · rw [if_pos hcontinuous]
  · split
    · rfl
    · simp only [not_lt.mpr hcurrent, if_false]
      rcases htold with htold | hroom
      · rw [reportGap, if_pos (beq_iff_eq.mpr htold)]
      · exact reportGap_of_noRoom hroom

theorem sweepFrom_of_settled {items} (h : ∀ item ∈ items, Settled state now item) :
    sweepFrom now state items = .ok state := by
  induction items with
  | nil => rfl
  | cons item rest ih =>
    rw [forall_mem_cons] at h
    exact sweepFrom_cons_eq_ok.mpr ⟨state, h.1.sweepRoutine_eq, ih h.2⟩

/-- A report never finds the notices full: it looks for room first. -/
theorem reportGap_spares_full (hfitting : Fitting state.notices) :
    Spares .noticesFull (reportGap state value now false) := by
  intro hrefused
  have hcause : Unpublishable state (gapNotice value now) .noticesFull :=
    tries_reportGap (fun _ => unpublishable_of_error) _ rfl hrefused
  cases hcause with
  | full hfull =>
    have hlength := hfitting.within.trans hfull
    have hkept := le_antisymm (length_filter_le _ _) hlength
    rw [length_filter_eq_length_iff] at hkept
    have habsent : gapNoticeId value ∉ noticeIds state := by
      intro hmem
      obtain ⟨notice, hnotice, hid⟩ := mem_map.mp hmem
      exact bne_iff_ne.mp (hkept notice hnotice) hid
    have hroom : maxUndeliveredNotices ≤ (noticeIds state).length := by
      rw [noticeIds, length_map]
      exact (Nat.le_add_right _ _).trans (hfull.trans (length_filter_le _ _))
    rw [reportGap_of_noRoom (mayReport_eq_false.mpr ⟨habsent, hroom⟩)] at hrefused
    cases hrefused

theorem sweepFrom_spares_full {items} (hfitting : Fitting state.notices) :
    Spares .noticesFull (sweepFrom now state items) := by
  induction items generalizing state with
  | nil => exact spares_ok _
  | cons item rest ih =>
    refine Spares.bind ?_ fun middle hmiddle =>
      ih ((sweptRoutine_of_ok hmiddle).posted.fitting hfitting)
    have htries : Tries (· ≠ .noticesFull) (sweepRoutine state item now) := by
      apply tries_sweepRoutine
      rintro before value hnotices _ - hrefused rfl
      exact reportGap_spares_full (hnotices ▸ hfitting) hrefused
    exact fun hrefused => htries _ rfl hrefused rfl

def SameButGap (before after : Routine) : Prop :=
  after = { before with
    nextRunAt := after.nextRunAt, gapStartedAt := after.gapStartedAt, missed := after.missed,
    reportedMissed := after.reportedMissed }

theorem SweptTo.sameButGap (h : SweptTo now item value) : SameButGap item value := by
  cases h with
  | continuous => rfl
  | moved _ hmoved => cases hmoved <;> rfl
  | reported _ hmoved => cases hmoved <;> rfl

structure ButGaps (now : Int) (routines : List Routine) (state next : TeamRoutines) : Prop where
  posted : ∀ notice ∈ next.notices, notice ∈ state.notices ∨
    ∃ value ∈ routines, ∃ name, notice = { gapNotice value now with name := name }
  kept : ∀ notice ∈ state.notices, notice ∈ next.notices ∨ ∃ value ∈ routines, notice.noticeId = gapNoticeId value

/-- What a sweep may change: firing times and gaps of the Routines, and the notices of the gaps. -/
structure OnlySkips (state next : TeamRoutines) (now : Int) : Prop where
  others : next = { state with routines := next.routines, notices := next.notices }
  routines : List.Forall₂ SameButGap state.routines next.routines
  notices : ButGaps now next.routines state next

theorem ButGaps.mono {some more} (h : ButGaps now some state next)
    (hsubset : some ⊆ more) : ButGaps now more state next where
  posted := fun notice hnotice =>
    (h.posted notice hnotice).imp_right fun ⟨value, hvalue, hgap⟩ => ⟨value, hsubset hvalue, hgap⟩
  kept := fun notice hnotice =>
    (h.kept notice hnotice).imp_right fun ⟨value, hvalue, hgap⟩ => ⟨value, hsubset hvalue, hgap⟩

theorem ButGaps.visited {before done after}
    (h : ButGaps now done state before) (hvisited : Visited now before item after value) :
    ButGaps now (done ++ [value]) state after := by
  have hvalue : value ∈ done ++ [value] := mem_append_right _ mem_cons_self
  obtain ⟨hposted, hkept⟩ := h.mono (subset_append_left done [value])
  rcases hvisited.posted with hsame | ⟨current, hpublished⟩
  · rw [← hsame] at hposted hkept
    exact ⟨hposted, hkept⟩
  · constructor
    · intro notice hnotice
      rw [hpublished, mem_publish] at hnotice
      rcases hnotice with ⟨hold, -⟩ | rfl
      · exact hposted notice hold
      · exact .inr ⟨value, hvalue, current.name, rfl⟩
    · intro notice hnotice
      rw [hpublished, mem_publish]
      by_cases hid : notice.noticeId = gapNoticeId value
      · exact .inr ⟨value, hvalue, hid⟩
      · exact (hkept notice hnotice).imp_left fun hold => .inl ⟨hold, hid⟩

theorem sweep_onlySkips (h : sweep state now = .ok next)
    (hids : (state.routines.map Routine.routineId).Nodup) : OnlySkips state next now where
  others := (sweep_onlyTells h).others
  routines := (sweep_forall₂ h hids).imp fun _ _ => SweptTo.sameButGap
  notices :=
    sweep_induct (motive := fun _ done after => ButGaps now done state after)
      (fun _ _ _ _ _ _ => ButGaps.visited) h hids ⟨fun _ => .inl, fun _ => .inl⟩

theorem Claimed.leases {keyFingerprint long entropy claimed} (h : Claimed state now keyFingerprint long entropy claimed next) :
    claimed.map (fun claim => claim.run.routineId) = (claimable state now long).map Routine.routineId ∧
      ∀ claim ∈ claimed, claim.run ∈ next.runs ∧ claim.run.status = .leased := by
  cases h with
  | idle hnone =>
    rw [hnone]
    exact ⟨rfl, fun _ hclaim => nomatch hclaim⟩
  | requested hsome _ _ _ _ hrun =>
    rw [hsome, Option.map_some, hrun]
    refine ⟨rfl, fun claim hclaim => ?_⟩
    cases hclaim
    rw [hrun, replaceRoutine_runs, startRun]
    exact ⟨mem_append_right _ mem_cons_self, rfl⟩
  | fired hsome _ hserve _ _ _ hrun =>
    refine ⟨?_, fun claim hclaim => ?_⟩
    · rw [hsome, Option.map_some, Option.map_some, hrun, leasedForm, hserve.routineId]
    cases hclaim
    rw [hrun, replaceRoutine_runs, startRun]
    exact ⟨mem_append_right _ mem_cons_self, rfl⟩

theorem fitting_after (calls) : Fitting (after calls).notices :=
  @run_invariant _ _ _ apply {} (fun state => Fitting state.notices) (fun _ _ _ => fitting_of_ok)
    ⟨nodup_nil, Nat.zero_le _⟩ calls

/-- A sweep of a reachable state is never refused for its notices being full, changes nothing but
firing times, gaps and gap notices, and changes nothing the second time. The claim at its instant
then leases the Routine the swept state names. -/
theorem sweep_settles (calls : List Call) (now : Int) :
    sweep (after calls) now ≠ .error .noticesFull ∧
      ∀ swept, sweep (after calls) now = .ok swept →
        sweep swept now = .ok swept ∧ OnlySkips (after calls) swept now ∧
        ∀ keyFingerprint long entropy next claimed,
          claim swept now keyFingerprint long entropy = .ok (next, claimed) →
            claimed.map (fun claim => claim.run.routineId) =
                (claimable swept now long).map Routine.routineId ∧
              ∀ claim ∈ claimed, claim.run ∈ next.runs ∧ claim.run.status = .leased := by
  have hids := (exclusive_after calls).ids
  have hfitting := fitting_after calls
  refine ⟨sweepFrom_spares_full hfitting, fun swept hswept => ?_⟩
  have hagain : sweep swept now = .ok swept :=
    sweepFrom_of_settled (sweep_settled hswept hids hfitting)
  refine ⟨hagain, sweep_onlySkips hswept hids, ?_⟩
  intro keyFingerprint long entropy next claimed hclaim
  obtain ⟨-, again, hresult, hclaimed⟩ := claimed_of_ok hclaim
  obtain rfl := Except.ok.inj (hagain.symm.trans hresult)
  exact hclaimed.leases

end ShimpzTeams.Routines
