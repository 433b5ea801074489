import ShimpzTeams.Routines.Sweeps
import ShimpzTeams.Routines.Sample

/-!
# Deletion

A Routine marked for deletion keeps its mark and its pause until it is gone. No
call leases or freezes a run of it any more, a held run of it is set aside in the
write that indexes it, and once it has no run left it goes with its one notice.
-/

namespace ShimpzTeams.Routines

open StrictJson Protocol Library List

variable {now : Int} {value current updated : Routine}

/-- Whatever is listed under an id is being deleted. -/
def Final (state : TeamRoutines) (routineId : String) : Prop :=
  ∀ value ∈ state.routines, value.routineId = routineId → value.deleting = true

def Resting (state : TeamRoutines) (routineId : String) : Prop :=
  ∀ value ∈ state.routines, value.routineId = routineId → value.paused = true

def Call.creates (call : Call) : Option String :=
  match call.action with
  | .create value _ _ _ => some value.routineId
  | _ => none

/-- A run record as it was under a Routine being deleted: neither leased nor frozen since. -/
structure Winding (before item : Run) : Prop where
  runId : before.runId = item.runId
  routineId : before.routineId = item.routineId
  leased : item.status = .leased → before.status = .leased ∧ before.leaseSha256 = item.leaseSha256
  frozen : item.status = .frozen → before.status = .frozen

theorem Winding.refl (item) : Winding item item := ⟨rfl, rfl, fun h => ⟨h, rfl⟩, id⟩

theorem Winding.trans {first second third} (h : Winding first second)
    (h' : Winding second third) : Winding first third := by
  refine ⟨h.runId.trans h'.runId, h.routineId.trans h'.routineId, fun hleased => ?_, fun hfrozen => ?_⟩
  · obtain ⟨hsecond, hsame⟩ := h'.leased hleased
    obtain ⟨hfirst, hdigest⟩ := h.leased hsecond
    exact ⟨hfirst, hdigest.trans hsame⟩
  · exact h.frozen (h'.frozen hfrozen)

variable {entropy : Entropy}

section

variable {state next : TeamRoutines} {call : Call} {routineId : String}

theorem rebased_deleting (now value) : (rebased now value).deleting = value.deleting := by
  unfold rebased
  split <;> rfl

theorem countedForm_flags (current outcome) : (countedForm current outcome).deleting = current.deleting ∧
      (current.paused = true → (countedForm current outcome).paused = true) := by
  unfold countedForm
  split
  · refine ⟨rfl, fun hpaused => ?_⟩
    simp [streaked, hpaused]
  · exact ⟨rfl, id⟩

theorem CompletedTo.flags {value shown} (h : CompletedTo value now shown current updated) :
    updated.deleting = current.deleting ∧ updated.paused = current.paused := by
  cases h <;> exact ⟨rfl, rfl⟩

theorem ne_of_kept (hfinal : Final state routineId) {owner}
    (hroutine : routine state owner = .ok current) (hkept : current.deleting = false) : owner ≠ routineId := by
  rintro rfl
  obtain ⟨hmem, hid⟩ := routine_mem hroutine
  have hdeleting := hfinal current hmem hid
  rw [hkept] at hdeleting
  cases hdeleting

variable [Platform]

theorem SweptTo.flags {item} (h : SweptTo now item value) :
    value.deleting = item.deleting ∧ value.paused = item.paused := by
  cases h with
  | continuous => exact ⟨rfl, rfl⟩
  | moved _ hmoved | reported _ hmoved => cases hmoved <;> exact ⟨rfl, rfl⟩

theorem RoutineEdit.final (h : RoutineEdit state call current updated) (hdeleting : current.deleting = true) :
    updated.deleting = true ∧ (current.paused = true → updated.paused = true) := by
  cases h with
  | updated hchangeable | refined hchangeable =>
    exact absurd hdeleting (by simp [hchangeable.kept])
  | paused hkept | rerun hkept | incidentPaused hkept => exact absurd hdeleting (by simp [hkept])
  | deleting => exact ⟨rfl, id⟩
  | reconfirm => exact ⟨hdeleting, id⟩
  | settled =>
    rw [rebased_deleting, rebased_paused]
    exact ⟨hdeleting, id⟩
  | ended =>
    obtain ⟨hmark, hpause⟩ := countedForm_flags current _
    rw [rebased_deleting, rebased_paused, hmark]
    exact ⟨hdeleting, hpause⟩
  | finished _ _ _ hcompleted | recovered _ _ _ hcompleted =>
    obtain ⟨hmark, hpause⟩ := hcompleted.flags
    rw [rebased_deleting, rebased_paused, hmark, hpause]
    exact ⟨hdeleting, id⟩

theorem RoutineStep.final (h : RoutineStep state call current updated) (hdeleting : current.deleting = true) :
    updated.deleting = true ∧ (current.paused = true → updated.paused = true) := by
  cases h with
  | kept => exact ⟨hdeleting, id⟩
  | edited hedit => exact hedit.final hdeleting
  | swept hswept | passed hswept =>
    obtain ⟨hmark, hpause⟩ := hswept.flags
    rw [hmark, hpause]
    exact ⟨hdeleting, id⟩
  | requested hswept hclaimable | fired hswept hclaimable =>
    have hkept := hclaimable.kept
    rw [hswept.flags.1, hdeleting] at hkept
    cases hkept

/-- Whatever is listed under an id after a call that creates nothing under it was listed before. -/
theorem step_of_ok (hexclusive : Exclusive state) (hcreates : call.creates ≠ some routineId)
    (h : apply state call = .ok next) (hvalue : value ∈ next.routines) (hid : value.routineId = routineId) :
    ∃ item ∈ state.routines, item.routineId = routineId ∧ RoutineStep state call item value := by
  rcases (changed_of_ok h).routines.steps hexclusive.ids hvalue with
    ⟨item, hitem, hstep⟩ | ⟨created, now, usage, steps, haction, -, rfl⟩
  · exact ⟨item, hitem, hstep.routineId.symm.trans hid, hstep⟩
  · refine absurd ?_ hcreates
    have hsame : created.routineId = routineId := hid
    simp [Call.creates, haction, hsame]

theorem claimed_ne {swept long due} (hexclusive : Exclusive state) (hfinal : Final state routineId)
    (hswept : sweep state now = .ok swept) (hsome : claimable swept now long = some due) :
    due.routineId ≠ routineId := by
  intro hid
  have hclaimable := claimable_of_some hsome
  obtain ⟨item, hitem, hto⟩ := exists_left_of_mem (sweep_forall₂ hswept hexclusive.ids) hclaimable.listed
  have hdeleting := hfinal item hitem (hto.routineId.symm.trans hid)
  rw [← hto.flags.1, hclaimable.kept] at hdeleting
  cases hdeleting

/-- An edit of a run of a Routine being deleted leases and freezes nothing. -/
theorem winding_of_edit {value updated} (hfinal : Final state routineId)
    (h : apply state call = .ok next) (hrun : run state value.runId = .ok value)
    (hedit : RunEdit call value updated) (hid : value.routineId = routineId) : Winding value updated := by
  cases hedit with
  | bound | spent | unprotected | incidentSpent => exact ⟨rfl, rfl, fun hleased => ⟨hleased, rfl⟩, id⟩
  | frozen =>
    obtain ⟨found, current, told, hfound, -, hfreezable, htold, -⟩ := freeze_of_ok h
    obtain rfl := Except.ok.inj (hfound.symm.trans hrun)
    exact absurd hid (ne_of_kept hfinal htold.routine hfreezable.kept)
  | thawed =>
    obtain ⟨found, current, token, hfound, -, hroutine, hkept, -⟩ := thaw_of_ok h
    obtain rfl := Except.ok.inj (hfound.symm.trans hrun)
    exact absurd hid (ne_of_kept hfinal hroutine hkept)
  | fenced | recovered | skipped | rerun => exact ⟨rfl, rfl, nofun, nofun⟩
  | paused => exact ⟨rfl, rfl, fun hleased => ⟨hleased, rfl⟩, id⟩

/-- Every run of a Routine being deleted that a call leaves was there before, and is leased or frozen
only as it was. -/
theorem winding_of_ok (hexclusive : Exclusive state) (hfinal : Final state routineId)
    (h : apply state call = .ok next) :
    ∀ item ∈ next.runs, item.routineId = routineId → ∃ before ∈ state.runs, Winding before item := by
  intro item hitem hid
  have hchange := runsChange_of_ok hexclusive.shadowed h
  generalize next.runs = runs at hchange hitem
  generalize next.discards = discards at hchange
  have hsame : item ∈ state.runs → ∃ before ∈ state.runs, Winding before item :=
    fun hbefore => ⟨item, hbefore, .refl item⟩
  cases hchange with
  | kept | discarded => exact hsame hitem
  | started _ hswept hsome =>
    rcases mem_append.mp hitem with hbefore | hnew
    · exact hsame hbefore
    · obtain rfl := mem_singleton.mp hnew
      exact absurd hid (claimed_ne hexclusive hfinal hswept hsome)
  | edited hrun hedit =>
    rcases mem_of_mem_replaceFirst hitem with rfl | hbefore
    · rw [hedit.yields.routineId] at hid
      exact ⟨_, (run_mem hrun).1, winding_of_edit hfinal h hrun hedit hid⟩
    · exact hsame hbefore
  | indexed hrun | setAside hrun =>
    rcases mem_of_mem_replaceFirst hitem with rfl | hbefore
    · exact ⟨_, (run_mem hrun).1, rfl, rfl, nofun, nofun⟩
    · exact hsame hbefore
  | reopened _ _ hreopenable =>
    rcases mem_of_mem_replaceFirst hitem with rfl | hbefore
    · exact absurd hid (ne_of_kept hfinal hreopenable.routine hreopenable.kept)
    · exact hsame hbefore
  | ended | released => exact hsame (mem_filter.mp hitem).1

/-- A held run of a Routine being deleted is set aside in the write that indexes it. -/
theorem settled_of_final {runId step value} (hfinal : Final state value.routineId) (hrun : run state runId = .ok value)
    (h : settleHold state runId now step entropy = .ok next) :
    run next runId = .ok (skippedForm (indexedForm value step)) := by
  obtain ⟨found, current, told, hfound, hstatus, htold, hnext⟩ := settleHold_of_ok h
  obtain rfl := Except.ok.inj (hfound.symm.trans hrun)
  obtain ⟨-, rfl⟩ := run_mem hrun
  rcases hnext with ⟨hkept, -⟩ | ⟨-, hskip⟩
  · exact absurd rfl (ne_of_kept hfinal htold.routine hkept)
  · obtain ⟨incident, second, retold, hincident, -, hretold, rfl⟩ := skipIncident_of_ok hskip
    have hindexed : run (ended (replaceRun told (indexedForm found step)) (indexedForm found step) now)
        found.runId = .ok (indexedForm found step) := by
      rw [run_eq_ok, ended_runs, replaceRun_runs, htold.onlyTells.runs]
      exact find?_replaceFirst_self (run_eq_ok.mp hrun) rfl
    obtain rfl := Except.ok.inj ((incident_of_run hindexed rfl).symm.trans hincident)
    rw [run_eq_ok, replaceRun_runs, hretold.onlyTells.runs]
    exact find?_replaceFirst_self (run_eq_ok.mp hindexed) rfl

/-- A Routine being deleted that has no run left goes as soon as its notice has room. -/
theorem completeDelete_of_idle {id} (hroutine : routine state routineId = .ok value) (hdeleting : value.deleting = true)
    (hidle : ∀ item ∈ state.runs, item.routineId ≠ routineId)
    (hroom : state.notices.length < maxUndeliveredNotices + maxRoutineNotices) (hid : newId entropy = .ok id) :
    ∃ next, completeDelete state routineId now entropy = .ok next ∧
      next.routines = state.routines.filter fun item => item.routineId != routineId := by
  have hdetail : exactDetail "deleted" (objectOf []) = true := rfl
  have hput := (@putNotice_eq_ok _ state _
    (routineNotice id routineId "deleted" now (objectOf [])) rfl).mpr ⟨value, hroutine,
      ⟨hdetail, le_refl 1, lt_of_le_of_lt (length_filter_le _ _) hroom⟩, rfl⟩
  refine ⟨{ publish state ((routineNotice id routineId "deleted" now (objectOf [])).named value) with
    routines := state.routines.filter fun item => item.routineId != routineId }, ?_, rfl⟩
  simp only [completeDelete, bind_eq_ok, guard_eq_ok, Bool.or_eq_true, Bool.not_eq_true',
    any_eq_true, beq_iff_eq, not_or, Bool.not_eq_false, not_exists, not_and, Except.ok.injEq]
  exact ⟨value, hroutine, ⟨hdeleting, hidle⟩, id, hid, _, hput, rfl⟩

end

section

variable {start : TeamRoutines} {routineId : String}

structure Retired (start : TeamRoutines) (routineId : String) (state : TeamRoutines) : Prop where
  exclusive : Exclusive state
  final : Final state routineId
  resting : Resting start routineId → Resting state routineId
  unlisted : (∀ value ∈ start.routines, value.routineId ≠ routineId) →
    ∀ value ∈ state.routines, value.routineId ≠ routineId
  winding : ∀ item ∈ state.runs, item.routineId = routineId → ∃ before ∈ start.runs, Winding before item

theorem Retired.refl (hexclusive : Exclusive start) (hfinal : Final start routineId) : Retired start routineId start :=
  ⟨hexclusive, hfinal, id, id, fun item hitem _ => ⟨item, hitem, .refl item⟩⟩

variable [Platform]

/-- No applied call of some calls creates a Routine under an id. A listed id is never created again,
so this speaks only of the calls after the deletion is complete. -/
def NoneCreated (start : TeamRoutines) (routineId : String) (calls : List Call) : Prop :=
  ∀ item ∈ applied apply start calls, item.2.creates ≠ some routineId

theorem Retired.step {state next call} (hretired : Retired start routineId state)
    (hcreates : call.creates ≠ some routineId) (h : apply state call = .ok next) : Retired start routineId next where
  exclusive := exclusive_of_ok hretired.exclusive h
  final := by
    intro value hvalue hid
    obtain ⟨item, hitem, hsame, hstep⟩ := step_of_ok hretired.exclusive hcreates h hvalue hid
    exact (hstep.final (hretired.final item hitem hsame)).1
  resting := by
    intro hresting value hvalue hid
    obtain ⟨item, hitem, hsame, hstep⟩ := step_of_ok hretired.exclusive hcreates h hvalue hid
    exact (hstep.final (hretired.final item hitem hsame)).2 (hretired.resting hresting item hitem hsame)
  unlisted := by
    intro hunlisted value hvalue hid
    obtain ⟨item, hitem, hsame, -⟩ := step_of_ok hretired.exclusive hcreates h hvalue hid
    exact hretired.unlisted hunlisted item hitem hsame
  winding := by
    intro item hitem hid
    obtain ⟨middle, hmiddle, hlast⟩ := winding_of_ok hretired.exclusive hretired.final h item hitem hid
    obtain ⟨before, hbefore, hfirst⟩ := hretired.winding middle hmiddle (hlast.routineId.trans hid)
    exact ⟨before, hbefore, hfirst.trans hlast⟩

theorem retired_of_run (hexclusive : Exclusive start) (hfinal : Final start routineId) (calls)
    (hcreated : NoneCreated start routineId calls) : Retired start routineId (runFrom apply start calls) := by
  refine @run_induction _ _ _ apply start (NoneCreated start routineId)
    (fun _ state => Retired start routineId state) ?_ (.refl hexclusive hfinal) ?_ ?_ calls hcreated
  · intro calls call hall item hitem
    refine hall item ?_
    rw [applied_append]
    exact mem_append_left _ hitem
  · intro calls call refusal _ hretired _
    exact hretired
  · intro calls call next hall hretired h
    have hlast : (runFrom apply start calls, call) ∈ applied apply start (calls ++ [call]) := by
      rw [applied_snoc_ok h]
      exact mem_append_right _ (mem_singleton_self _)
    exact hretired.step (hall _ hlast) h

/-- Deletion is final and complete. Once a Routine is marked, whatever calls follow: it keeps its mark
and its pause; each of its runs was there when it was marked, and is leased or frozen only as it was
then; a held run of it that settles is set aside in the same write; without a run left, it goes as soon
as one notice has room; and once it is gone no run of it exists again. -/
theorem deletion_final_and_complete (earlier later : List Call) (routineId : String) (marked : Routine)
    (hroutine : routine (after earlier) routineId = .ok marked) (hdeleting : marked.deleting = true)
    (hcreated : NoneCreated (after earlier) routineId later) :
    (∀ value ∈ (after (earlier ++ later)).routines, value.routineId = routineId →
      value.deleting = true ∧ (marked.paused = true → value.paused = true)) ∧
    (∀ item ∈ (after (earlier ++ later)).runs, item.routineId = routineId →
      ∃ before ∈ (after earlier).runs, Winding before item) ∧
    (∀ value runId now step entropy next, run (after (earlier ++ later)) runId = .ok value →
      value.routineId = routineId →
      settleHold (after (earlier ++ later)) runId now step entropy = .ok next →
      ∃ settled, run next runId = .ok settled ∧ settled.status = .skipped) ∧
    (∀ now entropy id, (∃ value ∈ (after (earlier ++ later)).routines, value.routineId = routineId) →
      (∀ item ∈ (after (earlier ++ later)).runs, item.routineId ≠ routineId) →
      (after (earlier ++ later)).notices.length < maxUndeliveredNotices + maxRoutineNotices →
      newId entropy = .ok id →
      ∃ next, completeDelete (after (earlier ++ later)) routineId now entropy = .ok next ∧
        ∀ value ∈ next.routines, value.routineId ≠ routineId) ∧
    ((∀ value ∈ (after (earlier ++ later)).routines, value.routineId ≠ routineId) →
      ∀ more, NoneCreated (after (earlier ++ later)) routineId more →
        ∀ item ∈ (after (earlier ++ later ++ more)).runs, item.routineId ≠ routineId) := by
  obtain ⟨hmem, hid⟩ := routine_mem hroutine
  have hexclusive := exclusive_after earlier
  have honly : ∀ value ∈ (after earlier).routines, value.routineId = routineId → value = marked :=
    fun value hvalue heq => eq_of_key_eq hexclusive.ids hvalue hmem (heq.trans hid.symm)
  have hfinal : Final (after earlier) routineId := by
    intro value hvalue heq
    rw [honly value hvalue heq, hdeleting]
  have hretired := retired_of_run hexclusive hfinal later hcreated
  rw [show runFrom apply (after earlier) later = after (earlier ++ later) from
    (runFrom_append earlier later).symm] at hretired
  refine ⟨?_, hretired.winding, ?_, ?_, ?_⟩
  · intro value hvalue heq
    refine ⟨hretired.final value hvalue heq, fun hpaused => ?_⟩
    refine hretired.resting (fun item hitem hitemId => ?_) value hvalue heq
    rw [honly item hitem hitemId, hpaused]
  · intro value runId now step entropy next hrun hvalueId h
    exact ⟨_, settled_of_final (hvalueId ▸ hretired.final) hrun h, rfl⟩
  · rintro now entropy id ⟨value, hvalue, rfl⟩ hidle hroom hnewId
    obtain ⟨found, hfound⟩ := routine_of_mem hvalue
    obtain ⟨hlisted, hfoundId⟩ := routine_mem hfound
    obtain ⟨next, hnext, hroutines⟩ := completeDelete_of_idle hfound
      (hretired.final found hlisted hfoundId) hidle hroom hnewId
    refine ⟨next, hnext, fun item hitem => ?_⟩
    rw [hroutines] at hitem
    simpa using (mem_filter.mp hitem).2
  · intro hgone more hmore item hitem heq
    have hafter := retired_of_run hretired.exclusive hretired.final more hmore
    rw [show runFrom apply (after (earlier ++ later)) more = after (earlier ++ later ++ more) from
      (runFrom_append _ more).symm] at hafter
    obtain ⟨value, hvalue, hlisted⟩ := mem_map.mp (hafter.exclusive.listed item hitem)
    exact hafter.unlisted hgone value hvalue (hlisted.trans heq)

end

def markedCalls : List Call :=
  [createMinute, ⟨.claim 1000 zeros true, draw 2⟩,
    ⟨.bindGeneration (drawnId 2) (drawnLease 2) 1000 "n", draw 3⟩, ⟨.beginDelete (drawnId 1), draw 3⟩]

/-- The run is held, settles and is released, and the Routine goes. -/
def deletedCalls : List Call :=
  [⟨.fence (drawnId 2) (drawnLease 2) 1001, draw 4⟩, ⟨.settleHold (drawnId 2) 1002 unknownStep, draw 5⟩,
    ⟨.releaseIncident (drawnId 2), draw 6⟩, ⟨.completeDelete (drawnId 1) 1003, draw 7⟩]

/-- A claim when the Routine would have been due again. -/
def lateClaim : Call := ⟨.claim 2000 zeros true, draw 8⟩

attribute [local instance] utcPlatform

theorem deletion_final_and_complete_deleted :
    (after markedCalls).runs.map Run.routineId = [drawnId 1] ∧
      (∀ value ∈ (after (markedCalls ++ deletedCalls)).routines, value.routineId ≠ drawnId 1) ∧
      ∀ item ∈ (after (markedCalls ++ deletedCalls ++ [lateClaim])).runs,
        item.routineId ≠ drawnId 1 := by
  have hstart : after markedCalls = runFrom apply minuteState markedCalls.tail :=
    after_createMinute _
  have hend : after (markedCalls ++ deletedCalls) =
      runFrom apply minuteState (markedCalls ++ deletedCalls).tail :=
    after_createMinute _
  have hmarked : (∃ value ∈ (after markedCalls).routines, value.routineId = drawnId 1 ∧
        value.deleting = true) ∧ (after markedCalls).runs.map Run.routineId = [drawnId 1] ∧
      ∀ item ∈ applied apply (after markedCalls) deletedCalls,
        item.2.creates ≠ some (drawnId 1) := by
    rw [hstart]
    decide +kernel
  have hgone : (∀ value ∈ (after (markedCalls ++ deletedCalls)).routines,
        value.routineId ≠ drawnId 1) ∧
      ∀ item ∈ applied apply (after (markedCalls ++ deletedCalls)) [lateClaim],
        item.2.creates ≠ some (drawnId 1) := by
    rw [hend]
    decide +kernel
  obtain ⟨⟨value, hvalue, hid, hdeleting⟩, hruns, hcreated⟩ := hmarked
  obtain ⟨found, hfound⟩ := routine_of_mem hvalue
  obtain ⟨hlisted, hfoundId⟩ := routine_mem hfound
  obtain rfl := eq_of_key_eq (exclusive_after markedCalls).ids hlisted hvalue hfoundId
  rw [hid] at hfound
  refine ⟨hruns, hgone.1, ?_⟩
  exact (deletion_final_and_complete markedCalls deletedCalls (drawnId 1) found hfound hdeleting
    hcreated).2.2.2.2 hgone.1 [lateClaim] hgone.2

end ShimpzTeams.Routines
