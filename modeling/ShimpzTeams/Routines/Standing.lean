import ShimpzTeams.Routines.Deletion
import ShimpzTeams.Routines.Settled
import ShimpzTeams.Routines.Starts

/-!
# What holds of a Team's Routines over any calls

A run starts only of a Routine that is ready for it. A pause stands until a person
lifts it, and the mark of a changed scope until the definition is confirmed anew. The
starts a Team keeps decide as its whole history would, no definition it lists locks
its Routine out, and its notices stay distinct and few.
-/

namespace ShimpzTeams.Routines

open StrictJson Protocol Library List

section

variable {routineId : String} {state next : TeamRoutines} {call : Call} {item value : Routine} {start : Start}

/-- A person resumes a Routine, or has it run again in place of its incident. -/
def resumes (routineId : String) (state : TeamRoutines) (call : Call) : Bool :=
  match call.action with
  | .setPaused found paused => found == routineId && !paused
  | .runIncident incidentId _ _ =>
    match incident state incidentId with
    | .ok found => found.routineId == routineId
    | .error _ => false
  | _ => false

/-- A new definition of a Routine is confirmed. -/
def redefines (routineId : String) (call : Call) : Bool :=
  match call.action with
  | .update value _ _ | .refine value _ _ => value.routineId == routineId
  | _ => false

/-- Whatever is listed under an id waits for a person to confirm its changed scope. -/
def Marked (state : TeamRoutines) (routineId : String) : Prop :=
  ∀ value ∈ state.routines, value.routineId = routineId → value.needsReconfirm = true

/-- A Routine of which a run may start, and what the start says of it. -/
structure Ready (state : TeamRoutines) (start : Start) (value : Routine) : Prop where
  routineId : value.routineId = start.1
  units : runUnits value = start.2.2
  confirmed : value.needsReconfirm = false
  kept : value.deleting = false
  unpaused : value.paused = false
  unleased : ∀ run ∈ state.runs, run.status ≠ .leased
  idle : ∀ run ∈ state.runs, run.status.live = true ∨ run.status = .unresolved → run.routineId ≠ start.1

theorem rebased_needsReconfirm (now) (value : Routine) : (rebased now value).needsReconfirm = value.needsReconfirm := by
  unfold rebased
  split <;> rfl

variable [Platform]

theorem SweptTo.needsReconfirm {now} (h : SweptTo now item value) : value.needsReconfirm = item.needsReconfirm := by
  cases h with
  | continuous => rfl
  | moved _ hmoved | reported _ hmoved => cases hmoved <;> rfl

theorem ready_of_start (hexclusive : Exclusive state) (h : apply state call = .ok next)
    (hstart : startOf state call = some start) : ∃ value ∈ state.routines, Ready state start value := by
  have hchange := startsChange_of_ok hexclusive.ids h
  generalize next.starts = starts at hchange
  generalize next.servedAt = servedAt at hchange
  cases hchange with
  | kept hnone => cases hnone.symm.trans hstart
  | started _ hswept hclaimable hsome =>
    obtain rfl := Option.some.inj (hsome.symm.trans hstart)
    obtain ⟨item, hitem, hto⟩ := exists_left_of_mem (sweep_forall₂ hswept hexclusive.ids) hclaimable.listed
    have hruns := (sweep_onlyTells hswept).runs
    refine ⟨item, hitem, hto.routineId.symm, (runUnits_eq_of_definition hto.definition).symm, ?_, ?_, ?_, ?_, ?_⟩
    · exact hto.needsReconfirm.symm.trans hclaimable.confirmed
    · exact hto.flags.1.symm.trans hclaimable.kept
    · exact hto.flags.2.symm.trans hclaimable.unpaused
    · exact fun run hrun => hclaimable.unleased run (hruns ▸ hrun)
    · exact fun run hrun => hclaimable.idle run (hruns ▸ hrun)

theorem RoutineStep.paused (h : RoutineStep state call item value) (hheld : resumes item.routineId state call = false)
    (hfresh : ∀ incidentId now expected, call.action ≠ .runIncident incidentId now expected)
    (hpaused : item.paused = true) : value.paused = true := by
  cases h with
  | kept => exact hpaused
  | edited hedit =>
    cases hedit with
    | updated | refined | deleting | reconfirm => exact hpaused
    | paused => simpa [resumes, pausedForm] using hheld
    | settled => rwa [rebased_paused]
    | ended =>
      rw [rebased_paused]
      exact (countedForm_flags item _).2 hpaused
    | finished _ _ _ hcompleted | recovered _ _ _ hcompleted => rwa [rebased_paused, hcompleted.flags.2]
    | rerun => exact absurd rfl (hfresh _ _ _)
    | incidentPaused => rfl
  | swept hswept | passed hswept => rwa [hswept.flags.2]
  | requested hswept hclaimable | fired hswept hclaimable =>
    have hunpaused := hclaimable.unpaused
    rw [hswept.flags.2, hpaused] at hunpaused
    cases hunpaused

theorem RoutineStep.unconfirmed (h : RoutineStep state call item value) (hheld : redefines item.routineId call = false)
    (hmarked : item.needsReconfirm = true) : value.needsReconfirm = true := by
  cases h with
  | kept => exact hmarked
  | edited hedit =>
    cases hedit with
    | updated hchangeable | refined hchangeable =>
      simp [redefines, (routine_mem hchangeable.routine).2] at hheld
    | paused | deleting | rerun | incidentPaused => exact hmarked
    | reconfirm => rfl
    | settled => rwa [rebased_needsReconfirm]
    | ended =>
      rw [rebased_needsReconfirm, countedForm]
      split <;> exact hmarked
    | finished _ _ _ hcompleted | recovered _ _ _ hcompleted =>
      rw [rebased_needsReconfirm]
      cases hcompleted <;> exact hmarked
  | swept hswept | passed hswept => rwa [hswept.needsReconfirm]
  | requested hswept hclaimable | fired hswept hclaimable =>
    have hconfirmed := hclaimable.confirmed
    rw [hswept.needsReconfirm, hmarked] at hconfirmed
    cases hconfirmed

/-- Running an incident again writes only the Routine of the incident. -/
theorem mem_of_runIncident {incidentId now expected entropy}
    (h : runIncident state incidentId now expected entropy = .ok next) (hvalue : value ∈ next.routines) :
    value ∈ state.routines ∨ ∃ found, incident state incidentId = .ok found ∧ found.routineId = value.routineId := by
  obtain ⟨found, skipped, current, hincident, hskip, hcurrent, -, rfl⟩ := runIncident_of_ok h
  have hid := (routine_mem hcurrent).2.symm
  rcases mem_of_mem_replaceFirst hvalue with rfl | hvalue
  · exact .inr ⟨found, hincident, hid⟩
  rcases mem_of_mem_replaceFirst hvalue with rfl | hvalue
  · exact .inr ⟨found, hincident, hid⟩
  · exact .inl (skipIncident_routines hskip ▸ hvalue)

theorem resting_of_ok (hexclusive : Exclusive state) (hcreates : call.creates ≠ some routineId)
    (hheld : resumes routineId state call = false) (hresting : Resting state routineId)
    (h : apply state call = .ok next) : Resting next routineId := by
  rintro value hvalue rfl
  by_cases hrerun : ∃ incidentId now expected, call.action = .runIncident incidentId now expected
  · obtain ⟨incidentId, now, expected, haction⟩ := hrerun
    obtain ⟨action, entropy⟩ := call
    obtain rfl := haction
    rcases mem_of_runIncident h hvalue with hbefore | ⟨found, hincident, hid⟩
    · exact hresting value hbefore rfl
    · simp [resumes, hincident, hid] at hheld
  · obtain ⟨item, hitem, hid, hstep⟩ := step_of_ok hexclusive hcreates h hvalue rfl
    exact hstep.paused (hid ▸ hheld) (fun _ _ _ heq => hrerun ⟨_, _, _, heq⟩) (hresting item hitem hid)

end

section

variable [Platform]

/-- What keeps a Routine from being ready stands while no call lifts it, and no run of the Routine starts. -/
theorem stands_of_run {stands : TeamRoutines → Prop} {lifts : TeamRoutines → Call → Bool} {initial routineId calls}
    (hready : ∀ {state start value}, stands state → value ∈ state.routines → Ready state start value →
      start.1 ≠ routineId)
    (hstep : ∀ {state call next}, Exclusive state → call.creates ≠ some routineId → lifts state call = false →
      stands state → apply state call = .ok next → stands next) (hexclusive : Exclusive initial)
    (hstands : stands initial) (hcreated : NoneCreated initial routineId calls)
    (hheld : ∀ item ∈ applied apply initial calls, lifts item.1 item.2 = false) :
    stands (runFrom apply initial calls) ∧
      ∀ item ∈ applied apply initial calls, ∀ start, startOf item.1 item.2 = some start → start.1 ≠ routineId := by
  refine (@applied_induction _ _ _ apply initial
    (fun state call => call.creates ≠ some routineId ∧ lifts state call = false)
    (fun past state => Exclusive state ∧ stands state ∧
      ∀ item ∈ past, ∀ start, startOf item.1 item.2 = some start → start.1 ≠ routineId) ?_ ?_ calls
    (fun item hitem => ⟨hcreated item hitem, hheld item hitem⟩)).2
  · exact ⟨hexclusive, hstands, fun _ hitem => (not_mem_nil hitem).elim⟩
  · rintro past state call next ⟨hcreates, hheld⟩ ⟨hexclusive, hstands, hpast⟩ h
    refine ⟨exclusive_of_ok hexclusive h, hstep hexclusive hcreates hheld hstands h, ?_⟩
    intro item hitem start hstart
    rcases mem_append.mp hitem with hbefore | hlast
    · exact hpast item hbefore start hstart
    · obtain rfl := mem_singleton.mp hlast
      obtain ⟨value, hvalue, hvalueReady⟩ := ready_of_start hexclusive h hstart
      exact hready hstands hvalue hvalueReady

/-- A pause stands until a person lifts it: whatever else is called, the Routine stays paused, and no run of it
starts. -/
theorem pause_stands_until_resumed (earlier later : List Call) (routineId : String)
    (hpaused : Resting (after earlier) routineId) (hcreated : NoneCreated (after earlier) routineId later)
    (hheld : ∀ item ∈ applied apply (after earlier) later, resumes routineId item.1 item.2 = false) :
    Resting (after (earlier ++ later)) routineId ∧ ∀ item ∈ applied apply (after earlier) later,
      ∀ start, startOf item.1 item.2 = some start → start.1 ≠ routineId := by
  rw [after, runFrom_append]
  refine @stands_of_run _ (Resting · routineId) _ _ _ _ ?_ resting_of_ok (exclusive_after earlier) hpaused hcreated hheld
  intro state start value hpaused hvalue hready hid
  cases hready.unpaused.symm.trans (hpaused value hvalue (hready.routineId.trans hid))

/-- A changed scope stands until it is confirmed: whatever else is called, the Routine keeps its mark, and no run of
it starts, until an update or a refinement of it is applied. -/
theorem scope_stands_until_confirmed (earlier later : List Call) (routineId : String)
    (hmarked : Marked (after earlier) routineId) (hcreated : NoneCreated (after earlier) routineId later)
    (hheld : ∀ item ∈ applied apply (after earlier) later, redefines routineId item.2 = false) :
    Marked (after (earlier ++ later)) routineId ∧ ∀ item ∈ applied apply (after earlier) later,
      ∀ start, startOf item.1 item.2 = some start → start.1 ≠ routineId := by
  rw [after, runFrom_append]
  refine @stands_of_run _ (Marked · routineId) (fun _ call => redefines routineId call) _ _ _ ?_ ?_
    (exclusive_after earlier) hmarked hcreated hheld
  · intro state start value hmarked hvalue hready hid
    cases hready.confirmed.symm.trans (hmarked value hvalue (hready.routineId.trans hid))
  · rintro state call next hexclusive hcreates hheld hmarked h value hvalue rfl
    obtain ⟨item, hitem, hid, hstep⟩ := step_of_ok hexclusive hcreates h hvalue rfl
    exact hstep.unconfirmed (hid ▸ hheld) (hmarked item hitem hid)

/-- The starts a Team keeps decide as all it ever made: at an instant no claim was later than, the earliest next
start of any Routine is the one the whole history gives. -/
theorem kept_starts_decide (calls : List Call) (hmono : (claimInstants calls).Pairwise (· ≤ ·)) (now : Int)
    (hlast : ∀ instant ∈ claimInstants calls, instant ≤ now) (routineId : String) (cap : Option Int) (steps : Int) :
    startsFreeAt (after calls).starts routineId cap now steps =
      startsFreeAt (startHistory calls) routineId cap now steps := by
  have hrolling := rollingAfter calls hmono
  have hkept := hrolling.rolling.window_eq fun item hitem => hlast _ (hrolling.claimed item hitem)
  have hall : window (startHistory calls) now = recent startInstant windowSeconds now (startHistory calls) :=
    window_eq_recent hrolling.rolling.sorted
  unfold startsFreeAt
  rw [hkept, hall]

/-- Whatever calls were made, every listed definition is in its contract and its budget, and none locks its own
Routine out: a day after the last start it may start at once. -/
theorem listed_never_locked_out (calls : List Call) :
    (∀ value ∈ (after calls).routines, definitionValid value = true ∧ fits value = true) ∧
      ∀ value ∈ (after calls).routines, ∀ now, (∀ start ∈ (after calls).starts, start.2.1 ≤ now - windowSeconds) →
        freeAt (after calls) value now = now := by
  refine ⟨fun value hvalue => ?_, fun value hvalue now hpast => ?_⟩
  · have hsound := sound_after calls value hvalue
    exact ⟨hsound.valid, hsound.fits⟩
  have hcap := one_le_dailyCap (sound_after calls value hvalue).schedule
  have hnone : window (after calls).starts now = [] :=
    eq_nil_iff_forall_not_mem.mpr fun start hstart =>
      absurd (hpast start (mem_of_mem_window hstart)) (not_le.mpr (lt_of_mem_window hstart))
  unfold freeAt startsFreeAt
  rw [hnone]
  split <;> simp_all [freeAtLimit, stepsFreeAt, stepsFreeFrom, Int.lt_iff_add_one_le]

/-- Whatever calls were made, the undelivered notices are distinct and no more than a Team keeps. -/
theorem notices_distinct_and_bounded (calls : List Call) :
    ((after calls).notices.map Notice.noticeId).Nodup ∧
      (after calls).notices.length ≤ maxUndeliveredNotices + maxRoutineNotices :=
  ⟨(fitting_after calls).distinct, (fitting_after calls).within⟩

end

/-- The Routine is created, paused, and its scope changes. -/
def heldMinute : List Call :=
  [createMinute, ⟨.setPaused (drawnId 1) true, draw 2⟩, ⟨.markScopeChanged (drawnId 1) 1000, draw 3⟩]

attribute [local instance] utcPlatform

theorem heldMinute_stands : (∀ value ∈ (after heldMinute).routines, value.routineId = drawnId 1 →
      value.paused = true ∧ value.needsReconfirm = true) ∧
    ∀ item ∈ applied apply (after heldMinute) [lateClaim], item.2.creates ≠ some (drawnId 1) ∧
      resumes (drawnId 1) item.1 item.2 = false ∧ redefines (drawnId 1) item.2 = false := by
  rw [show after heldMinute = runFrom apply minuteState heldMinute.tail from after_createMinute _]
  decide

theorem pause_stands_until_resumed_held : Resting (after (heldMinute ++ [lateClaim])) (drawnId 1) :=
  (pause_stands_until_resumed heldMinute [lateClaim] _ (fun value hvalue hid => (heldMinute_stands.1 value hvalue hid).1)
    (fun item hitem => (heldMinute_stands.2 item hitem).1) fun item hitem => (heldMinute_stands.2 item hitem).2.1).1

theorem scope_stands_until_confirmed_held : Marked (after (heldMinute ++ [lateClaim])) (drawnId 1) :=
  (scope_stands_until_confirmed heldMinute [lateClaim] _
    (fun value hvalue hid => (heldMinute_stands.1 value hvalue hid).2)
    (fun item hitem => (heldMinute_stands.2 item hitem).1) fun item hitem => (heldMinute_stands.2 item hitem).2.2).1

theorem kept_starts_decide_repeated :
    startsFreeAt (after repeatedCalls).starts (drawnId 1) (some 2) 2000 1 =
      startsFreeAt (startHistory repeatedCalls) (drawnId 1) (some 2) 2000 1 :=
  kept_starts_decide repeatedCalls (by decide) 2000 (by decide) (drawnId 1) (some 2) 1

end ShimpzTeams.Routines
