import ShimpzTeams.Library.Window
import ShimpzTeams.Routines.Sweeps
import ShimpzTeams.Routines.Sample

/-!
# The rolling starts, and when a Team's next run may start

A claim records the start it makes and forgets the starts that left the window
by then. Over a whole run the Team's daily steps and each continuous Routine's
cap hold in every window, wherever it ends. Both limits, once they have room, keep
it until another start, so the instant that scanning the window finds is the least
one, and the scheduler sleeps exactly until a claim can find a Routine.
-/

namespace ShimpzTeams.Routines

open StrictJson Protocol Library List

section

variable {routineId : String} {swept : TeamRoutines} {due : Routine} {now gap : Int} {long : Bool}

section

variable [Platform]

def reservedBy (state : TeamRoutines) (routineId : String) : Int :=
  match routine state routineId with
  | .ok value => runUnits value
  | .error _ => 0

def startOf (state : TeamRoutines) (call : Call) : Option Start :=
  match call.action with
  | .claim now keyFingerprint long =>
    match claim state now keyFingerprint long call.entropy with
    | .ok (_, some claim) =>
      some (claim.run.routineId, now, reservedBy state claim.run.routineId)
    | _ => none
  | _ => none

/-- Every start some calls made, in order. -/
def startHistory (calls : List Call) : List Start :=
  (applied apply {} calls).filterMap fun item => startOf item.1 item.2

end

def claimInstants (calls : List Call) : List Int := calls.filterMap Call.claimedAt

def gapOf (value : Routine) : Option Int :=
  if continuous value then (value.schedule.get "gap").bind smallInt else none

def startInstant (item : Start) : Int := item.2.1

variable {limit : Int} {current : List Start}

section

variable {starts : List Start} {now instant steps : Int}

theorem window_eq_recent (h : Chronological (fun item : Start => item.2.1) starts) :
    window starts now = recent (fun item : Start => item.2.1) windowSeconds now starts :=
  insertionSort_recent h

theorem lt_of_mem_window {item} (h : item ∈ window starts now) : now - windowSeconds < item.2.1 := by
  unfold window at h
  rw [mem_insertionSort] at h
  simpa using (mem_filter.mp h).2

/-- A start the budget refuses waits for a start of the window to leave it. -/
theorem now_lt_stepsFreeFrom {used current rest}
    (hcurrent : now < current) (hrest : ∀ item ∈ rest, now - windowSeconds < item.2.1) :
    now < stepsFreeFrom steps used current rest := by
  induction rest generalizing used current with
  | nil => exact hcurrent
  | cons item rest ih =>
    obtain ⟨owner, instant, reserved⟩ := item
    have hinstant : now - windowSeconds < instant := hrest _ mem_cons_self
    unfold stepsFreeFrom
    split
    · exact hcurrent
    · refine ih (by omega) fun other hother => hrest other (mem_cons_of_mem _ hother)

def HasRoom (starts : List Start) (routineId : String) (cap : Option Int) (instant steps : Int) : Prop :=
  ((window starts instant).map fun item => item.2.2).sum + steps ≤ maxDailySteps ∧
    ∀ limit, cap = some limit →
      (((window starts instant).filter fun item => item.1 == routineId).length : Int) < limit

/-- A later window is what is left of an earlier one. -/
theorem window_perm_filter (h : now ≤ instant) :
    (window starts instant).Perm ((window starts now).filter fun item => instant - windowSeconds < item.2.1) := by
  have hcut := @recent_recent _ startInstant windowSeconds _ _ h starts
  refine (perm_insertionSort _ _).trans ?_
  refine (List.Perm.of_eq hcut.symm).trans ((perm_insertionSort _ _).symm.filter _)

theorem window_sorted : (window starts now).Pairwise fun left right => left.2.1 ≤ right.2.1 :=
  pairwise_insertionSort _ _

theorem mem_of_mem_window {item} (h : item ∈ window starts now) : item ∈ starts := by
  unfold window at h
  rw [mem_insertionSort] at h
  exact mem_of_mem_filter h

theorem sum_filter_le (hreserved : ∀ item ∈ current, 0 ≤ item.2.2) (kept) :
    ((current.filter kept).map fun item => item.2.2).sum ≤ (current.map fun item => item.2.2).sum := by
  refine (filter_sublist.map _).sum_le_sum fun value hvalue => ?_
  obtain ⟨item, hitem, rfl⟩ := mem_map.mp hvalue
  exact hreserved item hitem

/-- The scan over the oldest starts ends by an instant at which those still in the window leave room. -/
theorem stepsFreeFrom_le_iff (hsteps : steps ≤ maxDailySteps) (hreserved : ∀ item ∈ current, 0 ≤ item.2.2)
    (hsorted : current.Pairwise fun left right => left.2.1 ≤ right.2.1) (h : now ≤ instant) :
    stepsFreeFrom steps (current.map fun item => item.2.2).sum now current ≤ instant ↔
      ((current.filter fun item => instant - windowSeconds < item.2.1).map fun item => item.2.2).sum + steps ≤
        maxDailySteps := by
  induction current generalizing now with
  | nil => simpa [stepsFreeFrom, hsteps] using h
  | cons item rest ih =>
    obtain ⟨owner, started, reserved⟩ := item
    obtain ⟨holdest, hrest⟩ := pairwise_cons.mp hsorted
    have hlater : ∀ other ∈ rest, 0 ≤ other.2.2 := fun other hother =>
      hreserved other (mem_cons_of_mem _ hother)
    rw [stepsFreeFrom, map_cons, sum_cons]
    by_cases hleft : started + windowSeconds ≤ instant
    · -- the oldest start has left by then
      have hgone : ¬instant - windowSeconds < started := by omega
      have hcount := ih hlater hrest hleft
      rw [filter_cons_of_neg (by simpa using hgone), ← hcount, add_sub_cancel_left]
      split
      · rename_i hfits
        dsimp only at hfits
        refine iff_of_true h (hcount.mpr ?_)
        have hsum := sum_filter_le hlater fun other => instant - windowSeconds < other.2.1
        have hown : 0 ≤ reserved := hreserved _ mem_cons_self
        omega
      · rfl
    · -- no start has left by then
      have hkept : ∀ other ∈ (owner, started, reserved) :: rest, instant - windowSeconds < other.2.1 := by
        intro other hother
        rcases mem_cons.mp hother with rfl | hother
        · dsimp only
          omega
        · have := holdest other hother
          dsimp only at this
          omega
      rw [filter_eq_self.mpr (by simpa using hkept), map_cons, sum_cons]
      split
      · rename_i hfits
        exact iff_of_true h hfits
      · rename_i hfull
        refine iff_of_false (not_le.mpr (now_lt_stepsFreeFrom (by omega) fun other hother => ?_)) hfull
        exact hkept other (mem_cons_of_mem _ hother)

theorem freeAtLimit_cons {started rest} : freeAtLimit (started :: rest) limit now =
      if limit ≤ rest.length then freeAtLimit rest limit now
      else if ((rest.length + 1 : Nat) : Int) < limit then now else started + windowSeconds := by
  unfold freeAtLimit
  rw [length_cons]
  by_cases hmany : limit ≤ rest.length
  · have hindex : (((rest.length + 1 : Nat) : Int) - limit).toNat = ((rest.length : Int) - limit).toNat + 1 := by
      omega
    rw [if_pos hmany, if_neg (by omega), if_neg (by omega), hindex, getElem?_cons_succ]
  · rw [if_neg hmany]
    split
    · rfl
    · rw [show (((rest.length + 1 : Nat) : Int) - limit).toNat = 0 by omega, getElem?_cons_zero]

/-- The limit's own instant is reached once fewer than the limit are still in the window. -/
theorem freeAtLimit_le_iff {instants} (hlimit : 1 ≤ limit) (hsorted : instants.Pairwise (· ≤ ·)) (h : now ≤ instant) :
    freeAtLimit instants limit now ≤ instant ↔
      ((instants.filter fun started => instant - windowSeconds < started).length : Int) < limit := by
  induction instants with
  | nil => exact iff_of_true (by simpa [freeAtLimit] using h) (Int.lt_of_lt_of_le Int.zero_lt_one hlimit)
  | cons started rest ih =>
    obtain ⟨holdest, hrest⟩ := pairwise_cons.mp hsorted
    have hfewer := length_filter_le (fun other => instant - windowSeconds < other) rest
    rw [freeAtLimit_cons]
    by_cases hin : instant - windowSeconds < started
    · -- the oldest start is still in the window, and so are all the others
      have hkept : rest.filter (fun other => instant - windowSeconds < other) = rest :=
        filter_eq_self.mpr fun other hother => decide_eq_true (hin.trans_le (holdest other hother))
      rw [filter_cons_of_pos (by simpa using hin), length_cons, hkept]
      split
      · rw [ih hrest, hkept]
        omega
      · split <;> omega
    · rw [filter_cons_of_neg (by simpa using hin)]
      split
      · exact ih hrest
      · split <;> omega

/-- The instant that scanning the window finds has passed exactly when there is room. -/
theorem startsFreeAt_le_iff {cap routineId} (hreserved : ∀ item ∈ starts, 0 ≤ item.2.2)
    (hcap : ∀ limit, cap = some limit → 1 ≤ limit) (hsteps : steps ≤ maxDailySteps) (h : now ≤ instant) :
    startsFreeAt starts routineId cap now steps ≤ instant ↔ HasRoom starts routineId cap instant steps := by
  have hperm := @window_perm_filter starts _ _ h
  unfold startsFreeAt HasRoom stepsFreeAt
  dsimp only
  rw [max_le_iff, and_comm, stepsFreeFrom_le_iff hsteps (fun item hitem => hreserved item (mem_of_mem_window hitem))
    window_sorted h, (hperm.map fun item : Start => item.2.2).sum_eq, (hperm.filter _).length_eq]
  refine and_congr_right fun _ => ?_
  cases cap with
  | none => simpa using h
  | some limit =>
    have hown : (((window starts now).filter fun item => item.1 == routineId).map
        fun item => item.2.1).Pairwise (· ≤ ·) :=
      pairwise_map.mpr (window_sorted.sublist filter_sublist)
    dsimp only
    rw [freeAtLimit_le_iff (hcap limit rfl) hown h, filter_map, length_map, filter_filter, filter_filter]
    simp [Bool.and_comm]

end

section

variable {value : Routine} {gap : Int}

theorem gapOf_eq_some (h : gapOf value = some gap) :
    continuous value = true ∧ (value.schedule.get "gap").bind smallInt = some gap := by
  unfold gapOf at h
  split at h
  · exact ⟨by assumption, h⟩
  · cases h

theorem gapOf_pos (hexact : exactSchedule value.schedule = true) (h : gapOf value = some gap) :
    minContinuousGapSeconds ≤ gap := by
  exact scheduleGap_pos hexact (gapOf_eq_some h).2

/-- The cap of a continuous Routine is the number of gaps that a day holds, rounded up. -/
theorem dailyCap_of_gap (h : gapOf value = some gap) : dailyCap value.schedule = continuousCap gap := by
  obtain ⟨hcontinuous, hgap⟩ := gapOf_eq_some h
  unfold dailyCap
  rw [hgap]
  exact if_pos hcontinuous

theorem one_le_continuousCap (h : minContinuousGapSeconds ≤ gap) : 1 ≤ continuousCap gap := by
  have hnonneg : 0 ≤ (daySeconds - 1) / gap := Int.ediv_nonneg (by decide) (le_trans (by decide) h)
  unfold continuousCap
  omega

theorem one_le_dailyCap {schedule} (h : exactSchedule schedule = true) : 1 ≤ dailyCap schedule := by
  unfold dailyCap
  split
  · rename_i gap hgap
    split
    · exact one_le_continuousCap (scheduleGap_pos h hgap)
    · exact le_refl 1
  · exact le_refl 1

theorem continuousCap_le_ceil (h : 1 ≤ gap) : (continuousCap gap).toNat ≤ ⌈(86400 : ℚ) / gap⌉₊ := by
  have hnonneg : 0 ≤ (86400 - 1) / gap := Int.ediv_nonneg (by decide) (by omega)
  have hmul : (86400 - 1) / gap * gap ≤ 86400 - 1 := Int.ediv_mul_le _ (by omega)
  have hcap : (continuousCap gap).toNat = ((86400 - 1) / gap).toNat + 1 := by
    unfold continuousCap daySeconds
    omega
  rw [hcap, Nat.add_one_le_ceil_iff, lt_div_iff₀ (by exact_mod_cast h)]
  have hcast : ((((86400 - 1) / gap).toNat : ℕ) : ℚ) = (((86400 - 1) / gap : ℤ) : ℚ) := by
    rw [← Int.cast_natCast, Int.toNat_of_nonneg hnonneg]
  rw [hcast]
  have hlt : (86400 - 1) / gap * gap < 86400 := by omega
  exact_mod_cast hlt

end

section

variable {value : Routine}
variable [Platform]

theorem Sound.schedule (h : Sound value) : exactSchedule value.schedule = true := by
  have hvalid := h.valid
  unfold definitionValid at hvalid
  simp only [Bool.and_eq_true] at hvalid
  exact hvalid.1.1.1.1.2

theorem Sound.runUnits (h : Sound value) : 1 ≤ runUnits value ∧ runUnits value ≤ 256 := by
  have hvalid := h.valid
  unfold definitionValid at hvalid
  simp only [Bool.and_eq_true] at hvalid
  have hsteps := wellFormed_steps hvalid.1.1.1.1.1.1.1.1.1
  unfold Routines.runUnits
  unfold maxSteps at hsteps
  omega

end

section

variable {state next : TeamRoutines}
variable [Platform]

/-- The starts and the last claim's instant that an applied call leaves. -/
inductive StartsChange (state : TeamRoutines) (call : Call) : List Start → Int → Prop where
  | kept (hnone : startOf state call = none) :
      StartsChange state call state.starts state.servedAt
  | started {swept : TeamRoutines} {due now long}
      (hclaims : call.claimedAt = some now) (hswept : sweep state now = .ok swept)
      (hclaimable : Claimable swept now long due)
      (hstart : startOf state call = some (due.routineId, now, runUnits due)) :
      StartsChange state call (started state.starts due.routineId now (runUnits due)) now

theorem reservedBy_of_swept (hids : (state.routines.map Routine.routineId).Nodup)
    (hswept : sweep state now = .ok swept) (hlisted : due ∈ swept.routines) :
    reservedBy state due.routineId = runUnits due := by
  obtain ⟨item, hitem, -, hsame⟩ := sweep_definition hids hswept hlisted
  have hfound : routine state due.routineId = .ok item := by
    rw [routineId_eq_of_definition hsame]
    exact routine_eq_ok.mpr (find?_key_of_mem hids hitem)
  unfold reservedBy
  rw [hfound]
  exact (runUnits_eq_of_definition hsame).symm

theorem Claimed.startsChange {keyFingerprint entropy claimed} (hids : (state.routines.map Routine.routineId).Nodup)
    (hclaim : claim state now keyFingerprint long entropy = .ok (next, claimed))
    (hswept : sweep state now = .ok swept) (h : Claimed swept now keyFingerprint long entropy claimed next) :
    StartsChange state ⟨.claim now keyFingerprint long, entropy⟩ next.starts next.servedAt := by
  have htold := sweep_onlyTells hswept
  cases h with
  | idle hnone =>
    rw [htold.starts, htold.servedAt]
    refine .kept ?_
    simp only [startOf, hclaim]
  | @requested due _ _ result hsome _ _ _ _ hrun =>
    have hclaimable := claimable_of_some hsome
    rw [replaceRoutine_starts, replaceRoutine_servedAt, startRun, htold.starts]
    refine .started rfl hswept hclaimable ?_
    simp only [startOf, hclaim, hrun, leasedForm]
    rw [reservedBy_of_swept hids hswept hclaimable.listed]
  | @fired due served _ _ result reported hsome _ hserve hreport _ _ hrun =>
    have hclaimable := claimable_of_some hsome
    have hstarts := (htold.trans ((onlyTells_replaceRoutine _ _).trans hreport.onlyTells)).starts
    have hunits := runUnits_eq_of_definition hserve.definition
    rw [replaceRoutine_starts, replaceRoutine_servedAt, startRun, hstarts, hunits, leasedForm, hserve.routineId]
    refine .started rfl hswept hclaimable ?_
    simp only [startOf, hclaim, hrun, leasedForm, hserve.routineId]
    rw [reservedBy_of_swept hids hswept hclaimable.listed]

theorem startsChange_of_ok {call} (hids : (state.routines.map Routine.routineId).Nodup)
    (h : apply state call = .ok next) : StartsChange state call next.starts next.servedAt := by
  by_cases hclaims : ∃ now keyFingerprint long, call.action = .claim now keyFingerprint long
  · obtain ⟨now, keyFingerprint, long, haction⟩ := hclaims
    obtain ⟨action, entropy⟩ := call
    obtain rfl := haction
    obtain ⟨⟨result, claimed⟩, hclaim, rfl⟩ := map_eq_ok.mp h
    obtain ⟨-, swept, hswept, hclaimed⟩ := claimed_of_ok hclaim
    exact hclaimed.startsChange hids hclaim hswept
  · simp only [not_exists] at hclaims
    have hposted := (changed_of_ok h).posted hclaims
    rw [hposted.starts, hposted.servedAt]
    refine .kept ?_
    unfold startOf
    split
    · rename_i haction
      exact absurd haction (hclaims _ _ _)
    · rfl

end

section

/-- What the kept starts say of every start made so far. -/
structure Rolling (history starts : List Start) : Prop where
  sorted : Chronological startInstant history
  kept : starts.Sublist history
  remembered : ∀ now, (∀ item ∈ history, item.2.1 ≤ now) →
    recent startInstant windowSeconds now starts = recent startInstant windowSeconds now history
  reserved : ∀ item ∈ history, 0 ≤ item.2.2
  fits : Fits startInstant (fun item => item.2.2) windowSeconds maxDailySteps history

variable {history starts : List Start} {routineId : String} {now steps : Int}

theorem Rolling.window_eq (h : Rolling history starts) (hlast : ∀ item ∈ history, item.2.1 ≤ now) :
    window starts now = recent startInstant windowSeconds now history := by
  rw [← h.remembered now hlast]
  exact window_eq_recent (h.sorted.sublist h.kept)

theorem Rolling.starts_reserved (h : Rolling history starts) : ∀ item ∈ starts, 0 ≤ item.2.2 :=
  fun item hitem => h.reserved item (h.kept.subset hitem)

theorem Rolling.started {cap} (h : Rolling history starts) (hlast : ∀ item ∈ history, item.2.1 ≤ now)
    (hreserved : 0 ≤ steps) (hroom : HasRoom starts routineId cap now steps) :
    Rolling (history ++ [(routineId, now, steps)]) (started starts routineId now steps) := by
  have hnow : startInstant (routineId, now, steps) = now := rfl
  have hrecent : now - windowSeconds < startInstant (routineId, now, steps) := by
    rw [hnow]
    unfold windowSeconds
    omega
  have hstarted : Routines.started starts routineId now steps =
      recent startInstant windowSeconds now (history ++ [(routineId, now, steps)]) := by
    rw [recent_snoc now hrecent, Routines.started, h.window_eq hlast]
  refine ⟨chronological_snoc h.sorted hlast, ?_, ?_, ?_, ?_⟩
  · rw [hstarted]
    exact filter_sublist
  · intro later hlater
    rw [hstarted]
    exact recent_recent (hlater (routineId, now, steps) (by simp)) _
  · intro item hitem
    rcases mem_append.mp hitem with hbefore | hnew
    · exact h.reserved item hbefore
    · rw [mem_singleton.mp hnew]
      exact hreserved
  · refine h.fits.snoc ?_
    rw [hnow, ← h.window_eq hlast]
    exact hroom.1

/-- One more start that is free now leaves a capped Routine within its cap. -/
theorem Rolling.own_started (h : Rolling history starts)
    (hlast : ∀ item ∈ history, item.2.1 ≤ now) (hroom : HasRoom starts routineId (some limit) now steps)
    (hown : Fits startInstant (fun _ => 1) windowSeconds limit (history.filter fun item => item.1 == routineId)) :
    Fits startInstant (fun _ => 1) windowSeconds limit
      ((history ++ [(routineId, now, steps)]).filter fun item => item.1 == routineId) := by
  have hnow : startInstant (routineId, now, steps) = now := rfl
  have hfilter : (history ++ [(routineId, now, steps)]).filter (fun item => item.1 == routineId) =
      (history.filter fun item => item.1 == routineId) ++ [(routineId, now, steps)] := by
    rw [filter_append]
    simp
  rw [hfilter]
  refine hown.snoc ?_
  have hcount := hroom.2 limit rfl
  rw [h.window_eq hlast] at hcount
  have hcomm : recent startInstant windowSeconds now (history.filter fun item => item.1 == routineId) =
      (recent startInstant windowSeconds now history).filter fun item => item.1 == routineId := by
    unfold recent
    rw [filter_filter, filter_filter]
    exact filter_congr fun item _ => Bool.and_comm _ _
  rw [hnow, hcomm, map_const', sum_replicate, nsmul_eq_mul, mul_one]
  omega

end

section

variable {calls : List Call} {call : Call} {next : TeamRoutines}

theorem claimInstants_snoc (calls call) :
    claimInstants (calls ++ [call]) = claimInstants calls ++ call.claimedAt.toList := by
  unfold claimInstants
  rw [filterMap_append]
  cases h : call.claimedAt <;> simp [h]

theorem claimInstants_cut (h : (claimInstants (calls ++ [call])).Pairwise (· ≤ ·)) :
    (claimInstants calls).Pairwise (· ≤ ·) := by
  rw [claimInstants_snoc] at h
  exact (pairwise_append.mp h).1

theorem claimInstants_last (h : (claimInstants (calls ++ [call])).Pairwise (· ≤ ·))
    (hclaims : call.claimedAt = some now) {instant} (hinstant : instant ∈ claimInstants calls) : instant ≤ now := by
  rw [claimInstants_snoc, hclaims] at h
  exact (pairwise_append.mp h).2.2 instant hinstant now (by simp)

theorem rolling_empty : Rolling [] [] where
  sorted := List.Pairwise.nil
  kept := List.Sublist.refl _
  remembered := fun _ _ => rfl
  reserved := fun _ hitem => nomatch hitem
  fits := fits_nil

variable [Platform]

theorem startHistory_snoc_ok (h : apply (after calls) call = .ok next) :
    startHistory (calls ++ [call]) = startHistory calls ++ (startOf (after calls) call).toList := by
  unfold startHistory
  have hlast : [(after calls, call)].filterMap (fun item => startOf item.1 item.2) =
      (startOf (after calls) call).toList := by
    cases hstart : startOf (after calls) call <;> simp [hstart]
  rw [applied_snoc_ok h, filterMap_append]
  exact congrArg _ hlast

theorem startHistory_snoc_error {refusal} (h : apply (after calls) call = .error refusal) :
    startHistory (calls ++ [call]) = startHistory calls := by
  unfold startHistory
  rw [applied_snoc_error h]

structure RollingAfter (calls : List Call) (state : TeamRoutines) : Prop where
  rolling : Rolling (startHistory calls) state.starts
  claimed : ∀ item ∈ startHistory calls, item.2.1 ∈ claimInstants calls

section

variable {state : TeamRoutines} (h : Claimable swept now long due)
  (hids : (state.routines.map Routine.routineId).Nodup) (hsound : ∀ item ∈ state.routines, Sound item)
  (hswept : sweep state now = .ok swept)

include h hids hsound hswept

theorem Claimable.units : 0 ≤ runUnits due ∧ runUnits due ≤ maxDailySteps := by
  obtain ⟨item, hitem, -, hsame⟩ := sweep_definition hids hswept h.listed
  have hunits := (hsound item hitem).runUnits
  rw [runUnits_eq_of_definition hsame]
  unfold maxDailySteps
  omega

theorem Claimable.hasRoom (hreserved : ∀ item ∈ state.starts, 0 ≤ item.2.2) :
    HasRoom state.starts due.routineId (if continuous due then some (dailyCap due.schedule) else none) now
      (runUnits due) := by
  obtain ⟨item, hitem, -, hsame⟩ := sweep_definition hids hswept h.listed
  have hfree := h.isFree
  unfold freeAt at hfree
  rw [(sweep_onlyTells hswept).starts] at hfree
  refine (startsFreeAt_le_iff hreserved (fun limit hlimit => ?_) (h.units hids hsound hswept).2
    (le_refl now)).mp hfree
  obtain ⟨-, hlimit⟩ := Option.ite_none_right_eq_some.mp hlimit
  rw [← Option.some.inj hlimit, schedule_eq_of_definition hsame]
  exact one_le_dailyCap (hsound item hitem).schedule

end

theorem rollingAfter_of_ok (hmono : (claimInstants (calls ++ [call])).Pairwise (· ≤ ·))
    (hbefore : RollingAfter calls (after calls)) (h : apply (after calls) call = .ok next) :
    RollingAfter (calls ++ [call]) next := by
  have hids := (exclusive_after calls).ids
  have hclaimed : ∀ item ∈ startHistory calls, item.2.1 ∈ claimInstants (calls ++ [call]) := by
    intro item hitem
    rw [claimInstants_snoc]
    exact mem_append_left _ (hbefore.claimed item hitem)
  have hchange := startsChange_of_ok hids h
  generalize hstarts : next.starts = starts at hchange
  generalize next.servedAt = now at hchange
  cases hchange with
  | kept hnone =>
    have hhistory := startHistory_snoc_ok h
    rw [hnone, Option.toList_none, append_nil] at hhistory
    refine ⟨?_, ?_⟩
    · rw [hhistory, hstarts]
      exact hbefore.rolling
    · rw [hhistory]
      exact hclaimed
  | started hclaims hswept hclaimable hstart =>
    have hhistory := startHistory_snoc_ok h
    rw [hstart, Option.toList_some] at hhistory
    have hlast : ∀ item ∈ startHistory calls, item.2.1 ≤ now := fun item hitem =>
      claimInstants_last hmono hclaims (hbefore.claimed item hitem)
    obtain ⟨hreserved, -⟩ := hclaimable.units hids (sound_after calls) hswept
    have hroom := hclaimable.hasRoom hids (sound_after calls) hswept hbefore.rolling.starts_reserved
    refine ⟨?_, ?_⟩
    · rw [hhistory, hstarts]
      exact hbefore.rolling.started hlast hreserved hroom
    · rw [hhistory]
      intro item hitem
      rcases mem_append.mp hitem with hold | hnew
      · exact hclaimed item hold
      · rw [mem_singleton.mp hnew, claimInstants_snoc, hclaims]
        exact mem_append_right _ (by simp)

theorem rollingAfter (calls) (hmono : (claimInstants calls).Pairwise (· ≤ ·)) : RollingAfter calls (after calls) := by
  refine @run_induction _ _ _ apply {} (fun calls => (claimInstants calls).Pairwise (· ≤ ·))
    RollingAfter (fun _ _ => claimInstants_cut) ?_ ?_ ?_ calls hmono
  · exact ⟨rolling_empty, fun _ hitem => nomatch hitem⟩
  · intro calls call refusal _ hbefore hrefused
    refine ⟨?_, ?_⟩
    · rw [startHistory_snoc_error hrefused]
      exact hbefore.rolling
    · rw [startHistory_snoc_error hrefused, claimInstants_snoc]
      exact fun item hitem => mem_append_left _ (hbefore.claimed item hitem)
  · intro calls call next hmono hbefore h
    exact rollingAfter_of_ok hmono hbefore h

def GapKept (routineId : String) (gap : Int) (calls : List Call) : Prop :=
  ∀ item ∈ applied apply {} calls, ∀ value ∈ item.1.routines, value.routineId = routineId → gapOf value = some gap

theorem GapKept.cut (h : GapKept routineId gap (calls ++ [call])) : GapKept routineId gap calls := by
  intro item hitem
  refine h item ?_
  rw [applied_append]
  exact mem_append_left _ hitem

structure CappedAfter (routineId : String) (gap : Int) (calls : List Call) : Prop where
  least : ∀ item ∈ startHistory calls, item.1 = routineId → minContinuousGapSeconds ≤ gap
  fits : Fits startInstant (fun _ => 1) windowSeconds (continuousCap gap)
    ((startHistory calls).filter fun item => item.1 == routineId)

theorem Claimable.capped (h : Claimable swept now long due) (hkept : GapKept due.routineId gap (calls ++ [call]))
    (happly : apply (after calls) call = .ok next) (hswept : sweep (after calls) now = .ok swept)
    (hreserved : ∀ item ∈ (after calls).starts, 0 ≤ item.2.2) : minContinuousGapSeconds ≤ gap ∧
      HasRoom (after calls).starts due.routineId (some (continuousCap gap)) now (runUnits due) := by
  obtain ⟨item, hitem, -, hsame⟩ := sweep_definition (exclusive_after calls).ids hswept h.listed
  have happlied : (after calls, call) ∈ applied apply {} (calls ++ [call]) := by
    rw [applied_snoc_ok happly]
    exact mem_append_right _ mem_cons_self
  have hgap : gapOf item = some gap := hkept _ happlied item hitem (routineId_eq_of_definition hsame).symm
  have hexact := (sound_after calls item hitem).schedule
  have hdue : gapOf due = some gap := by
    rw [← hgap]
    unfold gapOf continuous
    rw [schedule_eq_of_definition hsame]
  have hroom := h.hasRoom (exclusive_after calls).ids (sound_after calls) hswept hreserved
  rw [if_pos (gapOf_eq_some hdue).1, dailyCap_of_gap hdue] at hroom
  exact ⟨gapOf_pos hexact hgap, hroom⟩

theorem cappedAfter_of_ok (hmono : (claimInstants (calls ++ [call])).Pairwise (· ≤ ·))
    (hkept : GapKept routineId gap (calls ++ [call])) (hbefore : CappedAfter routineId gap calls)
    (h : apply (after calls) call = .ok next) : CappedAfter routineId gap (calls ++ [call]) := by
  have hids := (exclusive_after calls).ids
  have hrolling := rollingAfter calls (claimInstants_cut hmono)
  have hhistory := startHistory_snoc_ok h
  have hchange := startsChange_of_ok hids h
  generalize next.starts = starts at hchange
  generalize next.servedAt = now at hchange
  cases hchange with
  | kept hnone =>
    rw [hnone, Option.toList_none, append_nil] at hhistory
    exact ⟨hhistory ▸ hbefore.least, hhistory ▸ hbefore.fits⟩
  | @started swept due _ long hclaims hswept hclaimable hstart =>
    rw [hstart, Option.toList_some] at hhistory
    by_cases hown : due.routineId = routineId
    · subst hown
      obtain ⟨hleast, hroom⟩ := hclaimable.capped hkept h hswept hrolling.rolling.starts_reserved
      have hlast : ∀ item ∈ startHistory calls, item.2.1 ≤ now := fun item hitem =>
        claimInstants_last hmono hclaims (hrolling.claimed item hitem)
      refine ⟨fun _ _ _ => hleast, ?_⟩
      rw [hhistory]
      exact hrolling.rolling.own_started hlast hroom hbefore.fits
    · have hother : (startHistory (calls ++ [call])).filter (fun item => item.1 == routineId) =
          (startHistory calls).filter fun item => item.1 == routineId := by
        rw [hhistory, filter_append]
        simp [hown]
      refine ⟨fun item hitem heq => ?_, hother ▸ hbefore.fits⟩
      rw [hhistory] at hitem
      rcases mem_append.mp hitem with hold | hnew
      · exact hbefore.least item hold heq
      · rw [mem_singleton.mp hnew] at heq
        exact absurd heq hown

theorem cappedAfter (calls) (hmono : (claimInstants calls).Pairwise (· ≤ ·)) (hkept : GapKept routineId gap calls) :
    CappedAfter routineId gap calls := by
  refine @run_induction _ _ _ apply {}
    (fun calls => (claimInstants calls).Pairwise (· ≤ ·) ∧ GapKept routineId gap calls)
    (fun calls _ => CappedAfter routineId gap calls)
    (fun _ _ h => ⟨claimInstants_cut h.1, h.2.cut⟩) ?_ ?_ ?_ calls ⟨hmono, hkept⟩
  · exact ⟨fun _ hitem => (nomatch hitem), fits_nil⟩
  · intro calls call refusal _ hbefore hrefused
    have hhistory := startHistory_snoc_error hrefused
    exact ⟨hhistory ▸ hbefore.least, hhistory ▸ hbefore.fits⟩
  · rintro calls call next ⟨hmono, hkept⟩ hbefore h
    exact cappedAfter_of_ok hmono hkept hbefore h

def startsWithin (calls : List Call) (finish : Int) : List Start :=
  within startInstant windowSeconds finish (startHistory calls)

theorem startsWithin_own (calls finish routineId) :
    (startsWithin calls finish).filter (fun item => item.1 == routineId) = within startInstant windowSeconds finish
        ((startHistory calls).filter fun item => item.1 == routineId) := by
  unfold startsWithin within
  rw [filter_filter, filter_filter]
  exact filter_congr fun item _ => Bool.and_comm _ _

/-- However other transitions interleave with claims at nondecreasing instants, in every window of a
day the started runs reserve at most 20000 business steps, and a continuous Routine whose gap stays
the same starts at most as many runs as the day has gaps, rounded up. -/
theorem daily_starts_bounded (calls : List Call) (hmono : (claimInstants calls).Pairwise (· ≤ ·)) (finish : Int) :
    ((startsWithin calls finish).map fun item => item.2.2).sum ≤ 20000 ∧
      ∀ routineId gap, GapKept routineId gap calls →
        ((startsWithin calls finish).filter fun item => item.1 == routineId).length ≤
          ⌈(86400 : ℚ) / gap⌉₊ := by
  have hrolling := (rollingAfter calls hmono).rolling
  refine ⟨sum_within_le (by decide) hrolling.reserved hrolling.sorted hrolling.fits finish, ?_⟩
  intro routineId gap hkept
  have hcapped := cappedAfter calls hmono hkept
  rw [startsWithin_own]
  cases hown : (startHistory calls).filter fun item => item.1 == routineId with
  | nil => simp [within]
  | cons first rest =>
    have hfirst : first ∈ (startHistory calls).filter fun item => item.1 == routineId := by
      rw [hown]
      exact mem_cons_self
    obtain ⟨hmem, heq⟩ := mem_filter.mp hfirst
    have hleast := hcapped.least first hmem (by simpa using heq)
    have hgap : 1 ≤ gap := le_trans (by decide) hleast
    have hsorted : Chronological startInstant ((startHistory calls).filter fun item =>
        item.1 == routineId) := hrolling.sorted.sublist filter_sublist
    have hcap : 0 ≤ continuousCap gap := le_trans (by decide) (one_le_continuousCap hleast)
    have hsum := sum_within_le hcap (fun _ _ => by decide) hsorted hcapped.fits finish
    rw [map_const', sum_replicate, nsmul_eq_mul, mul_one] at hsum
    rw [← hown]
    have hceil := continuousCap_le_ceil hgap
    omega

end

/-- A continuous Routine claimed again as soon as its run ended and its gap passed. -/
def repeatedCalls : List Call :=
  [createMinute, ⟨.claim 1000 zeros true, draw 2⟩,
    ⟨.endRun (drawnId 2) 1010 "stopped" (objectOf []) none, draw 3⟩, ⟨.claim 1060 zeros true, draw 4⟩]

attribute [local instance] utcPlatform

theorem daily_starts_bounded_repeated :
    (claimInstants repeatedCalls).Pairwise (· ≤ ·) ∧ GapKept (drawnId 1) 60 repeatedCalls ∧
      startHistory repeatedCalls = [(drawnId 1, 1000, 1), (drawnId 1, 1060, 1)] ∧
      ((startsWithin repeatedCalls 2000).map fun item => item.2.2).sum ≤ 20000 ∧
      ((startsWithin repeatedCalls 2000).filter fun item => item.1 == drawnId 1).length ≤
        ⌈(86400 : ℚ) / (60 : Int)⌉₊ := by
  have hmono : (claimInstants repeatedCalls).Pairwise (· ≤ ·) := by decide
  have hkept : GapKept (drawnId 1) 60 repeatedCalls := by
    unfold GapKept repeatedCalls
    rw [applied_createMinute]
    decide
  have hhistory : startHistory repeatedCalls = [(drawnId 1, 1000, 1), (drawnId 1, 1060, 1)] := by
    unfold startHistory repeatedCalls
    rw [applied_createMinute]
    decide
  obtain ⟨hsteps, hown⟩ := daily_starts_bounded repeatedCalls hmono 2000
  exact ⟨hmono, hkept, hhistory, hsteps, hown (drawnId 1) 60 hkept⟩

end

section

variable {starts : List Start} {routineId : String} {cap : Option Int} {now instant steps : Int}

theorem now_le_startsFreeAt : now ≤ startsFreeAt starts routineId cap now steps := by
  refine le_trans ?_ (le_max_right _ _)
  have hcurrent : ∀ item ∈ window starts now, now - windowSeconds < item.2.1 := fun item => lt_of_mem_window
  unfold stepsFreeAt
  cases hwindow : window starts now with
  | nil => exact le_refl now
  | cons item rest =>
    obtain ⟨owner, started, reserved⟩ := item
    rw [hwindow] at hcurrent
    have hitem : now - windowSeconds < started := hcurrent _ mem_cons_self
    rw [stepsFreeFrom]
    split
    · exact le_refl now
    · exact (now_lt_stepsFreeFrom (by omega) fun other hother =>
        hcurrent other (mem_cons_of_mem _ hother)).le

/-- A start's free instant is the least one, from now on, that is free itself, and being free is having room under
both limits. -/
theorem free_at_is_least (hreserved : ∀ item ∈ starts, 0 ≤ item.2.2)
    (hcap : ∀ limit, cap = some limit → 1 ≤ limit) (hsteps : steps ≤ maxDailySteps) :
    IsLeast {instant | now ≤ instant ∧ startsFreeAt starts routineId cap instant steps ≤ instant}
        (startsFreeAt starts routineId cap now steps) ∧
      ∀ instant, startsFreeAt starts routineId cap instant steps ≤ instant ↔
        HasRoom starts routineId cap instant steps := by
  have hroom : ∀ now instant, now ≤ instant → (startsFreeAt starts routineId cap now steps ≤ instant ↔
      HasRoom starts routineId cap instant steps) := fun now instant =>
    startsFreeAt_le_iff hreserved hcap hsteps
  have hnow : now ≤ startsFreeAt starts routineId cap now steps := now_le_startsFreeAt
  have hitself := (hroom now _ hnow).mp (le_refl _)
  refine ⟨⟨⟨hnow, (hroom _ _ (le_refl _)).mpr hitself⟩, ?_⟩, fun instant => hroom instant instant (le_refl _)⟩
  rintro instant ⟨hafter, hfree⟩
  exact (hroom now instant hafter).mpr ((hroom instant instant (le_refl _)).mp hfree)

/-- A start of 300 steps beside one of 19,900 waits until that one leaves. -/
theorem free_at_is_least_full :
    startsFreeAt [("b", 7, 19900), ("a", 5, 20)] "a" (some 2) 9 300 = 86407 ∧
      IsLeast {instant | 9 ≤ instant ∧
        startsFreeAt [("b", 7, 19900), ("a", 5, 20)] "a" (some 2) instant 300 ≤ instant} 86407 := by
  have hfree : startsFreeAt [("b", 7, 19900), ("a", 5, 20)] "a" (some 2) 9 300 = 86407 := by decide
  refine ⟨hfree, hfree ▸ (free_at_is_least ?_ ?_ (by decide)).1⟩
  · simp
  · simp

end

section

variable {state : TeamRoutines} {now instant : Int} {long : Bool}

/-- The earliest instant after `now` at which one of the Team's Routines becomes due to start. -/
def nextDue (state : TeamRoutines) (now : Int) : Option Int :=
  if backpressured state || segmentLeased state then none
  else
    (((ready state true).map fun item => max (dueAt item) (freeAt state item now)).filter
      fun due => now < due).min?

theorem claimable_isSome : (claimable state instant long).isSome = true ↔
      (backpressured state || segmentLeased state) = false ∧
        ∃ item ∈ ready state long, dueAt item ≤ instant ∧ freeAt state item instant ≤ instant := by
  have holdest : ∀ items : List Routine, (oldest items).isSome = true ↔ ∃ item, item ∈ items := by
    intro items
    cases items <;> simp [oldest]
  unfold claimable
  cases backpressured state || segmentLeased state with
  | true => simp
  | false => simp [holdest]

theorem nextDue_le (hopen : (backpressured state || segmentLeased state) = false) :
    (∃ wake, nextDue state now = some wake ∧ wake ≤ instant) ↔
      ∃ item ∈ ready state true, now < max (dueAt item) (freeAt state item now) ∧
        max (dueAt item) (freeAt state item now) ≤ instant := by
  unfold nextDue
  simp only [hopen, Bool.false_eq_true, if_false]
  generalize hdues : (ready state true).map (fun item => max (dueAt item) (freeAt state item now)) = dues
  have hmember : (∃ item ∈ ready state true, now < max (dueAt item) (freeAt state item now) ∧
      max (dueAt item) (freeAt state item now) ≤ instant) ↔
      ∃ due ∈ dues.filter fun due => now < due, due ≤ instant := by
    rw [← hdues]
    simp [mem_filter, and_assoc]
  rw [hmember]
  constructor
  · rintro ⟨wake, hwake, hle⟩
    exact ⟨wake, (min?_eq_some_iff.mp hwake).1, hle⟩
  · rintro ⟨due, hdue, hle⟩
    obtain ⟨wake, hwake⟩ := Option.isSome_iff_exists.mp (isSome_min?_of_mem hdue)
    exact ⟨wake, hwake, le_trans ((min?_eq_some_iff.mp hwake).2 due hdue) hle⟩

/-- What bounds a Team's starts: each reserves some steps, and a Routine's run and its cap are in their limits. -/
structure Limited (state : TeamRoutines) : Prop where
  reserved : ∀ item ∈ state.starts, 0 ≤ item.2.2
  units : ∀ item ∈ state.routines, runUnits item ≤ maxDailySteps
  capped : ∀ item ∈ state.routines, 1 ≤ dailyCap item.schedule

theorem Limited.freeAt_le_iff (h : Limited state) {item} (hitem : item ∈ ready state long)
    (hafter : now ≤ instant) : freeAt state item instant ≤ instant ↔ freeAt state item now ≤ instant := by
  have hlisted : item ∈ state.routines := (mem_filter.mp hitem).1
  have hcap : ∀ limit, (if continuous item = true then some (dailyCap item.schedule) else none) = some limit →
      1 ≤ limit := by
    intro limit hlimit
    obtain ⟨-, hlimit⟩ := Option.ite_none_right_eq_some.mp hlimit
    exact Option.some.inj hlimit ▸ h.capped item hlisted
  unfold freeAt
  rw [startsFreeAt_le_iff h.reserved hcap (h.units item hlisted) (le_refl instant),
    startsFreeAt_le_iff h.reserved hcap (h.units item hlisted) hafter]

/-- Where nothing is claimable now, a later claim finds a Routine exactly from the waking instant on. -/
theorem Limited.claimable_iff (h : Limited state) (hnone : claimable state now true = none) (hafter : now < instant) :
    (claimable state instant true).isSome = true ↔ ∃ wake, nextDue state now = some wake ∧ wake ≤ instant := by
  rw [claimable_isSome]
  cases hopen : backpressured state || segmentLeased state with
  | true => simp [nextDue, hopen]
  | false =>
    have hidle := @claimable_isSome state now true
    simp only [hnone, hopen, Option.isSome_none, Bool.false_eq_true, true_and, false_iff, not_exists, not_and,
      not_le] at hidle
    rw [nextDue_le hopen]
    constructor
    · rintro ⟨-, item, hitem, hdue, hfree⟩
      rw [h.freeAt_le_iff hitem hafter.le] at hfree
      refine ⟨item, hitem, lt_max_iff.mpr ?_, max_le hdue hfree⟩
      exact or_iff_not_imp_left.mpr fun hnot => hidle item hitem (not_lt.mp hnot)
    · rintro ⟨item, hitem, -, hle⟩
      obtain ⟨hdue, hfree⟩ := max_le_iff.mp hle
      exact ⟨rfl, item, hitem, hdue, (h.freeAt_le_iff hitem hafter.le).mpr hfree⟩

end

section

variable [Platform]

theorem reserved_after (calls) : ∀ item ∈ (after calls).starts, 0 ≤ item.2.2 := by
  refine @run_invariant_with _ _ _ apply {} (fun state => Exclusive state ∧ ∀ item ∈ state.routines, Sound item)
    (fun state => ∀ item ∈ state.starts, 0 ≤ item.2.2) (fun calls => ⟨exclusive_after calls, sound_after calls⟩)
    ?_ (fun _ hitem => nomatch hitem) calls
  rintro state call next ⟨hexclusive, hsound⟩ hbefore h
  have hchange := startsChange_of_ok hexclusive.ids h
  generalize next.starts = starts at hchange ⊢
  generalize next.servedAt = now at hchange
  cases hchange with
  | kept => exact hbefore
  | started _ hswept hclaimable _ =>
    intro item hitem
    rcases mem_append.mp hitem with hold | hnew
    · exact hbefore item (mem_of_mem_window hold)
    · rw [mem_singleton.mp hnew]
      exact (hclaimable.units hexclusive.ids hsound hswept).1

theorem limited_after (calls) : Limited (after calls) := by
  have hsound := sound_after calls
  refine ⟨reserved_after calls, fun item hitem => ?_, fun item hitem => ?_⟩
  · have hunits := (hsound item hitem).runUnits
    unfold maxDailySteps
    omega
  · exact one_le_dailyCap (hsound item hitem).schedule

/-- Where a claim finds nothing, the scheduler's waking instant is the least later one at which it would find a
Routine, and there is none exactly when it never would. -/
theorem wakes_exactly (calls : List Call) (now : Int) (hnone : claimable (after calls) now true = none) :
    (∀ wake, nextDue (after calls) now = some wake ↔
      IsLeast {instant | now < instant ∧ (claimable (after calls) instant true).isSome = true} wake) ∧
    (nextDue (after calls) now = none ↔ ∀ instant, now < instant → claimable (after calls) instant true = none) := by
  have hiff := fun instant => @Limited.claimable_iff _ now instant (limited_after calls) hnone
  have hlater : ∀ wake, nextDue (after calls) now = some wake → now < wake := by
    intro wake hwake
    unfold nextDue at hwake
    obtain ⟨-, hwake⟩ := Option.ite_none_left_eq_some.mp hwake
    simpa using (mem_filter.mp (min?_eq_some_iff.mp hwake).1).2
  have hleast : ∀ wake, nextDue (after calls) now = some wake →
      IsLeast {instant | now < instant ∧ (claimable (after calls) instant true).isSome = true} wake := by
    intro wake hwake
    refine ⟨⟨hlater wake hwake, (hiff wake (hlater wake hwake)).mpr ⟨wake, hwake, le_refl wake⟩⟩, ?_⟩
    rintro instant ⟨hafter, hsome⟩
    obtain ⟨found, hfound, hle⟩ := (hiff instant hafter).mp hsome
    exact Option.some.inj (hwake.symm.trans hfound) ▸ hle
  have hsleeps : nextDue (after calls) now = none ↔
      ∀ instant, now < instant → claimable (after calls) instant true = none := by
    constructor
    · intro hnever instant hafter
      by_contra hsome
      obtain ⟨wake, hwake, -⟩ := (hiff instant hafter).mp (Option.isSome_iff_ne_none.mpr hsome)
      rw [hnever] at hwake
      cases hwake
    · intro hnever
      by_contra hwakes
      obtain ⟨wake, hwake⟩ := Option.ne_none_iff_exists'.mp hwakes
      have hsome := (hleast wake hwake).1.2
      rw [hnever wake (hlater wake hwake)] at hsome
      cases hsome
  refine ⟨fun wake => ⟨hleast wake, fun h => ?_⟩, hsleeps⟩
  obtain ⟨found, hfound, -⟩ := (hiff wake h.1.1).mp h.1.2
  rw [hfound, (hleast found hfound).unique h]

end

attribute [local instance] utcPlatform

/-- Before a new Routine's first firing the scheduler sleeps until that firing. -/
theorem wakes_exactly_first : claimable (after [createMinute]) 990 true = none ∧
    IsLeast {instant | 990 < instant ∧ (claimable (after [createMinute]) instant true).isSome = true} 1000 := by
  have hnone : claimable (after [createMinute]) 990 true = none := by
    rw [after_createMinute]
    decide
  have hwake : nextDue (after [createMinute]) 990 = some 1000 := by
    rw [after_createMinute]
    decide
  exact ⟨hnone, ((wakes_exactly [createMinute] 990 hnone).1 1000).mp hwake⟩

end ShimpzTeams.Routines
