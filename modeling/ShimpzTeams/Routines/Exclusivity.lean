import ShimpzTeams.Routines.Changes

/-!
# Each Routine has one slot, and each run an id of its own

A Routine has at most one run that is live or an unresolved incident, whatever
the calls. The claim checks it where a run starts. A reopening and a thaw lease a
run that held the slot already. The random source gives every call another id, so
an id that names a run or a queued removal was drawn for it.
-/

namespace ShimpzTeams.Routines

open StrictJson Protocol Library List

/-- A run that takes its Routine's slot: it is live, or its incident is unresolved. -/
def Run.occupies (value : Run) : Bool := value.status.live || value.status == .unresolved

/-- A run leased to a worker, under any key but the one of a person's answer. -/
def Run.machineLeased (value : Run) : Bool :=
  value.status == .leased && value.leaseKey != humanLease

structure Exclusive (state : TeamRoutines) : Prop where
  ids : (state.routines.map Routine.routineId).Nodup
  room : state.routines.length ≤ maxRoutines
  shadowed : Shadowed state.runs
  slots : state.runs.Pairwise fun earlier later =>
    ¬(earlier.occupies = true ∧ later.occupies = true ∧ earlier.routineId = later.routineId)
  worker : state.runs.Pairwise fun earlier later =>
    ¬(earlier.machineLeased = true ∧ later.machineLeased = true)
  records : state.runs.length ≤ maxRuns
  listed : ∀ item ∈ state.runs, item.routineId ∈ state.routines.map Routine.routineId

theorem exclusive_empty : Exclusive {} :=
  ⟨nodup_nil, by decide, List.Pairwise.nil, List.Pairwise.nil, List.Pairwise.nil, by decide,
    fun _ hitem => nomatch hitem⟩

structure Yields (value updated : Run) : Prop where
  runId : updated.runId = value.runId
  routineId : updated.routineId = value.routineId
  slot : updated.occupies = true → value.occupies = true
  worker : updated.machineLeased = true → value.machineLeased = true

section

variable {state next : TeamRoutines} {call : Call}
variable {runs : List Run}

inductive SlotsChange (state : TeamRoutines) : List Run → Prop where
  | kept : SlotsChange state state.runs
  | started {value} (hstartable : Startable state value.routineId)
      (hstatus : value.status = .leased) : SlotsChange state (state.runs ++ [value])
  | yielded {value updated} (hrun : run state value.runId = .ok value)
      (hyields : Yields value updated) :
      SlotsChange state (replaceFirst Run.runId updated state.runs)
  | fewer {keep} : SlotsChange state (state.runs.filter keep)

/-- A relation between earlier and later runs survives a change of the slots when a started run
has it with the runs before it and a yielding run keeps it. -/
theorem SlotsChange.pairwise {related} (h : SlotsChange state runs) (hrelated : state.runs.Pairwise related)
    (hstarted : ∀ value : Run, Startable state value.routineId → value.status = .leased →
      ∀ item ∈ state.runs, related item value)
    (hleft : ∀ value updated other, Yields value updated → related value other →
      related updated other) (hright : ∀ value updated other, Yields value updated → other.runId ≠ updated.runId →
      related other value → related other updated) : runs.Pairwise related := by
  cases h with
  | kept => exact hrelated
  | started hstartable hstatus =>
    refine pairwise_append.mpr ⟨hrelated, pairwise_singleton _ _, ?_⟩
    intro item hitem other hother
    rw [mem_singleton.mp hother]
    exact hstarted _ hstartable hstatus item hitem
  | yielded hrun hyields =>
    have hfind := run_eq_ok.mp hrun
    rw [← hyields.runId] at hfind
    exact pairwise_replaceFirst hrelated hfind (fun other => hleft _ _ other hyields)
      fun other => hright _ _ other hyields
  | fewer => exact hrelated.filter _

theorem Startable.not_occupies {routineId} (h : Startable state routineId) {item}
    (hitem : item ∈ state.runs) (hroutine : item.routineId = routineId) : item.occupies = false := by
  by_contra hoccupies
  simp only [Run.occupies, Bool.not_eq_false, Bool.or_eq_true, beq_iff_eq] at hoccupies
  exact h.idle item hitem hoccupies hroutine

theorem SlotsChange.records (h : SlotsChange state runs) (hrecords : state.runs.length ≤ maxRuns) :
    runs.length ≤ maxRuns := by
  cases h with
  | kept => exact hrecords
  | started hstartable =>
    rw [length_append]
    exact hstartable.records
  | yielded => rwa [length_replaceFirst]
  | fewer => exact (length_filter_le _ _).trans hrecords

theorem SlotsChange.routineIds (h : SlotsChange state runs)
    (hlisted : ∀ item ∈ state.runs, item.routineId ∈ state.routines.map Routine.routineId) :
    ∀ item ∈ runs, item.routineId ∈ state.routines.map Routine.routineId := by
  intro item hitem
  cases h with
  | kept => exact hlisted item hitem
  | started hstartable =>
    rcases mem_append.mp hitem with hitem | hitem
    · exact hlisted item hitem
    · rw [mem_singleton.mp hitem]
      exact hstartable.listed
  | yielded hrun hyields =>
    rcases mem_of_mem_replaceFirst hitem with rfl | hitem
    · rw [hyields.routineId]
      exact hlisted _ (run_mem hrun).1
    · exact hlisted item hitem
  | fewer => exact hlisted item (mem_filter.mp hitem).1

theorem SlotsChange.shadowed (h : SlotsChange state runs) (hexclusive : Exclusive state) : Shadowed runs := by
  refine h.pairwise hexclusive.shadowed (fun value _ hstatus _ _ _ => hstatus) ?_ ?_
  · intro value updated other hyields hother heq
    exact hother (hyields.runId.symm.trans heq)
  · intro value updated other _ hne _ heq
    exact absurd heq hne

theorem SlotsChange.slots (h : SlotsChange state runs) (hexclusive : Exclusive state) :
    runs.Pairwise fun earlier later =>
      ¬(earlier.occupies = true ∧ later.occupies = true ∧ earlier.routineId = later.routineId) := by
  refine h.pairwise hexclusive.slots ?_ ?_ ?_
  · rintro value hstartable _ item hitem ⟨hoccupies, -, hroutine⟩
    rw [hstartable.not_occupies hitem hroutine] at hoccupies
    cases hoccupies
  · rintro value updated other hyields hnot ⟨hupdated, hother, hroutine⟩
    exact hnot ⟨hyields.slot hupdated, hother, hyields.routineId.symm.trans hroutine⟩
  · rintro value updated other hyields _ hnot ⟨hother, hupdated, hroutine⟩
    exact hnot ⟨hother, hyields.slot hupdated, hroutine.trans hyields.routineId⟩

theorem SlotsChange.worker (h : SlotsChange state runs) (hexclusive : Exclusive state) :
    runs.Pairwise fun earlier later =>
      ¬(earlier.machineLeased = true ∧ later.machineLeased = true) := by
  refine h.pairwise hexclusive.worker ?_ ?_ ?_
  · rintro value hstartable _ item hitem ⟨hleased, -⟩
    simp only [Run.machineLeased, Bool.and_eq_true, beq_iff_eq] at hleased
    exact hstartable.unleased item hitem hleased.1
  · rintro value updated other hyields hnot ⟨hupdated, hother⟩
    exact hnot ⟨hyields.worker hupdated, hother⟩
  · rintro value updated other hyields _ hnot ⟨hother, hupdated⟩
    exact hnot ⟨hother, hyields.worker hupdated⟩

theorem IdsChange.nodup (h : IdsChange state next) (hids : (state.routines.map Routine.routineId).Nodup) :
    (next.routines.map Routine.routineId).Nodup := by
  cases h with
  | kept hkept => rwa [hkept]
  | added hfresh _ hadded =>
    rw [hadded]
    refine nodup_append.mpr ⟨hids, nodup_singleton _, ?_⟩
    intro id hid other hother
    rw [mem_singleton.mp hother]
    exact fun heq => hfresh (heq ▸ hid)
  | removed _ hremoved =>
    rw [hremoved]
    exact hids.filter _

theorem IdsChange.room (h : IdsChange state next) (hroom : state.routines.length ≤ maxRoutines) :
    next.routines.length ≤ maxRoutines := by
  have hlength : next.routines.length = (next.routines.map Routine.routineId).length := by simp
  rw [hlength]
  cases h with
  | kept hkept => simpa [hkept] using hroom
  | added _ hadded hids =>
    rw [hids, length_append, length_map]
    exact hadded
  | removed _ hremoved =>
    rw [hremoved]
    refine (length_filter_le _ _).trans ?_
    simpa using hroom

theorem IdsChange.listed (h : IdsChange state next)
    (hlisted : ∀ item ∈ next.runs, item.routineId ∈ state.routines.map Routine.routineId) :
    ∀ item ∈ next.runs, item.routineId ∈ next.routines.map Routine.routineId := by
  intro item hitem
  cases h with
  | kept hkept =>
    rw [hkept]
    exact hlisted item hitem
  | added _ _ hadded =>
    rw [hadded]
    exact mem_append_left _ (hlisted item hitem)
  | removed hidle hremoved =>
    rw [hremoved]
    exact mem_filter.mpr ⟨hlisted item hitem, by simpa using hidle item hitem⟩

theorem Exclusive.slot (h : Exclusive state) (routineId) :
    (state.runs.filter fun item => item.routineId == routineId && item.occupies).length ≤ 1 := by
  refine length_filter_le_one (h.slots.imp fun {earlier later} hnot hboth => ?_)
  simp only [Bool.and_eq_true, beq_iff_eq] at hboth
  exact hnot ⟨hboth.1.2, hboth.2.2, hboth.1.1.trans hboth.2.1.symm⟩

/-- At most one run in a slot for each listed Routine. -/
theorem Exclusive.occupied (h : Exclusive state) : (state.runs.filter Run.occupies).length ≤ maxRoutines := by
  have hgroups := length_filter_le_groups h.slots h.listed
  rw [length_map] at hgroups
  exact hgroups.trans h.room

theorem length_occupied (runs : List Run) : (runs.filter Run.occupies).length =
      (runs.filter fun item => item.status.live).length +
        (runs.filter fun item => item.status == .unresolved).length := by
  induction runs with
  | nil => rfl
  | cons item rest ih =>
    cases hstatus : item.status <;>
      simp [Run.occupies, hstatus, RunStatus.live, ih] <;> omega

variable [Platform]

theorem humanForm_yields {value} (hslot : value.occupies = true) (token now) :
    Yields value (humanForm value token now) :=
  ⟨rfl, rfl, fun _ => hslot, fun hworker => absurd hworker (by simp [Run.machineLeased, humanForm])⟩

theorem RunEdit.yields {value updated} (h : RunEdit call value updated) : Yields value updated := by
  cases h with
  | bound | spent | unprotected | incidentSpent | paused => exact ⟨rfl, rfl, id, id⟩
  | frozen hdrives =>
    exact ⟨rfl, rfl, fun _ => by simp [Run.occupies, hdrives.status, RunStatus.live],
      fun hworker => by cases hworker⟩
  | @thawed _ now _ token _ hstatus _ =>
    have hslot : value.occupies = true := by simp [Run.occupies, hstatus, RunStatus.live]
    have hhuman := humanForm_yields hslot token now
    exact ⟨rfl, rfl, hhuman.slot, hhuman.worker⟩
  | fenced hdrives =>
    exact ⟨rfl, rfl, fun _ => by simp [Run.occupies, hdrives.status, RunStatus.live],
      fun hworker => by cases hworker⟩
  | recovered hstatus =>
    exact ⟨rfl, rfl, fun _ => by simp [Run.occupies, hstatus, RunStatus.live],
      fun hworker => by cases hworker⟩
  | skipped | rerun => exact ⟨rfl, rfl, (fun hslot => by cases hslot), fun hworker => by cases hworker⟩

theorem RunsChange.slotsChange {discards} (h : RunsChange state call runs discards) : SlotsChange state runs := by
  cases h with
  | kept | discarded => exact .kept
  | started _ _ _ hstartable => exact .started hstartable rfl
  | edited hrun hedit => exact .yielded hrun hedit.yields
  | indexed hrun hstatus =>
    exact .yielded hrun ⟨rfl, rfl, fun _ => by simp [Run.occupies, hstatus, RunStatus.live],
      fun hworker => by cases hworker⟩
  | setAside hrun => exact .yielded hrun ⟨rfl, rfl, (fun hslot => by cases hslot), fun hworker => by cases hworker⟩
  | @reopened value _ now _ token _ hrun hstatus _ _ =>
    have hslot : value.occupies = true := by simp [Run.occupies, hstatus]
    have hhuman := humanForm_yields hslot token now
    exact .yielded hrun ⟨rfl, rfl, hhuman.slot, hhuman.worker⟩
  | ended | released => exact .fewer

theorem exclusive_of_ok (hexclusive : Exclusive state) (h : apply state call = .ok next) : Exclusive next := by
  have hslots := (runsChange_of_ok hexclusive.shadowed h).slotsChange
  have hids := idsChange_of_ok h
  exact ⟨hids.nodup hexclusive.ids, hids.room hexclusive.room, hslots.shadowed hexclusive,
    hslots.slots hexclusive, hslots.worker hexclusive, hslots.records hexclusive.records,
    hids.listed (hslots.routineIds hexclusive.listed)⟩

/-- Every reachable state keeps the slots exclusive. -/
theorem exclusive_after (calls) : Exclusive (after calls) :=
  run_invariant (fun _ _ _ => exclusive_of_ok) exclusive_empty calls

/-- However the calls interleave, each Routine has at most one live or unresolved run, at most one
run is leased under a machine key, the live and unresolved runs and the records stay within their
bounds, and every record is of a listed Routine. -/
theorem reachable_runs_exclusive (calls : List Call) :
    (∀ routineId, ((after calls).runs.filter fun item =>
      item.routineId == routineId && item.occupies).length ≤ 1) ∧
    ((after calls).runs.filter Run.machineLeased).length ≤ 1 ∧
    (liveRuns (after calls)).length ≤ 8 ∧
    (liveRuns (after calls)).length + (unresolvedRuns (after calls)).length ≤ 32 ∧
    (after calls).runs.length ≤ 64 ∧
    ∀ item ∈ (after calls).runs, ∃ listed ∈ (after calls).routines,
      listed.routineId = item.routineId := by
  have hexclusive := exclusive_after calls
  have hoccupied : (liveRuns (after calls)).length + (unresolvedRuns (after calls)).length ≤ 8 := by
    have hlength := length_occupied (after calls).runs
    have hbound := hexclusive.occupied
    rw [hlength] at hbound
    exact hbound
  refine ⟨hexclusive.slot, length_filter_le_one hexclusive.worker, by omega, by omega,
    hexclusive.records, fun item hitem => ?_⟩
  exact mem_map.mp (hexclusive.listed item hitem)

end

/-- The ids the random source gave some calls. -/
def mintedIds (calls : List Call) : List String := calls.filterMap Call.mintedId

/-- The random source gives no id twice. -/
def FreshIds (calls : List Call) : Prop := (mintedIds calls).Nodup

/-- Every run and every queued removal is of an id drawn for it, and no two runs are of one. -/
structure Minted (minted : List String) (state : TeamRoutines) : Prop where
  distinct : (state.runs.map Run.runId).Nodup
  runs : ∀ item ∈ state.runs, item.runId ∈ minted
  discards : ∀ held ∈ state.discards, held.1 ∈ minted

theorem minted_empty : Minted [] {} where
  distinct := nodup_nil
  runs := fun _ hitem => nomatch hitem
  discards := fun _ hheld => nomatch hheld

theorem mintedIds_snoc (calls call) : mintedIds (calls ++ [call]) = mintedIds calls ++ call.mintedId.toList := by
  unfold mintedIds
  rw [filterMap_append]
  cases h : call.mintedId <;> simp [h]

theorem mintedIds_subset (calls call) : mintedIds calls ⊆ mintedIds (calls ++ [call]) := by
  rw [mintedIds_snoc]
  exact subset_append_left _ _

variable {calls : List Call}

theorem FreshIds.cut {call} (h : FreshIds (calls ++ [call])) : FreshIds calls := by
  unfold FreshIds at h ⊢
  rw [mintedIds_snoc] at h
  exact (nodup_append.mp h).1

theorem FreshIds.fresh {call} (h : FreshIds (calls ++ [call])) {id}
    (hid : call.mintedId = some id) : id ∉ mintedIds calls := by
  unfold FreshIds at h
  rw [mintedIds_snoc, hid] at h
  intro hmem
  exact (nodup_append.mp h).2.2 id hmem id (by simp) rfl

theorem mintedId_of_newId {call : Call} {id} (h : newId call.entropy = .ok id) : call.mintedId = some id := by
  obtain ⟨bytes, hbytes, rfl⟩ := newId_eq_ok.mp h
  simp [Call.mintedId, hbytes]

variable [Platform] {state next : TeamRoutines} {call : Call}

/-- The ids of the runs after a call: some of those before it, and perhaps the one it minted. -/
theorem RunsChange.runIds {discards runs} (h : RunsChange state call runs discards) :
    (runs.map Run.runId).Sublist (state.runs.map Run.runId ++ call.mintedId.toList) := by
  have hleft : (state.runs.map Run.runId).Sublist
      (state.runs.map Run.runId ++ call.mintedId.toList) := sublist_append_left _ _
  cases h with
  | kept | discarded => exact hleft
  | started _ _ _ _ _ hid =>
    rw [mintedId_of_newId hid, map_append]
    exact List.Sublist.refl _
  | edited | indexed | setAside | reopened => rwa [map_key_replaceFirst]
  | ended | released => exact (filter_sublist.map _).trans hleft

theorem RunsChange.queued {discards runs} (h : RunsChange state call runs discards) {held} (hheld : held ∈ discards) :
    held ∈ state.discards ∨ ∃ value ∈ state.runs, held = (value.runId, value.generation) := by
  have hnew : ∀ {value : Run}, run state value.runId = .ok value →
      held ∈ state.discards ++ [(value.runId, value.generation)] →
        held ∈ state.discards ∨ ∃ value ∈ state.runs, held = (value.runId, value.generation) := by
    intro value hrun hmem
    rcases mem_append.mp hmem with hbefore | hnew
    · exact .inl hbefore
    · exact .inr ⟨value, (run_mem hrun).1, mem_singleton.mp hnew⟩
  cases h with
  | kept | started | edited | released => exact .inl hheld
  | discarded => exact .inl (mem_filter.mp hheld).1
  | indexed hrun | setAside hrun | ended _ hrun => exact hnew hrun hheld
  | reopened hrun =>
    split at hheld
    · exact .inl hheld
    · exact hnew hrun hheld

theorem minted_of_ok (hexclusive : Exclusive state)
    (hminted : Minted (mintedIds calls) state) (hfresh : FreshIds (calls ++ [call]))
    (h : apply state call = .ok next) : Minted (mintedIds (calls ++ [call])) next := by
  have hchange := runsChange_of_ok hexclusive.shadowed h
  have hsubset := mintedIds_subset calls call
  refine ⟨?_, fun item hitem => ?_, fun held hheld => ?_⟩
  · refine List.Nodup.sublist hchange.runIds (nodup_append.mpr ⟨hminted.distinct, ?_, ?_⟩)
    · cases call.mintedId <;> simp
    · rintro id hid other hother rfl
      obtain ⟨item, hitem, rfl⟩ := mem_map.mp hid
      refine hfresh.fresh ?_ (hminted.runs item hitem)
      simpa using hother
  · rw [mintedIds_snoc]
    rcases mem_append.mp (hchange.runIds.subset (mem_map_of_mem hitem)) with hold | hnew
    · obtain ⟨before, hbefore, heq⟩ := mem_map.mp hold
      exact mem_append_left _ (heq ▸ hminted.runs before hbefore)
    · exact mem_append_right _ hnew
  · rcases hchange.queued hheld with hold | ⟨value, hvalue, rfl⟩
    · exact hsubset (hminted.discards held hold)
    · exact hsubset (hminted.runs value hvalue)

/-- However the calls interleave, distinct draws keep the runs' ids distinct. -/
theorem minted_after (calls) (hfresh : FreshIds calls) : Minted (mintedIds calls) (after calls) := by
  refine @run_induction _ _ _ apply {} FreshIds (fun calls => Minted (mintedIds calls))
    (fun _ _ => FreshIds.cut) minted_empty ?_ ?_ calls hfresh
  · intro calls call _ _ hminted _
    rw [mintedIds_snoc]
    refine ⟨hminted.distinct, fun item hitem => ?_, fun held hheld => ?_⟩
    · exact mem_append_left _ (hminted.runs item hitem)
    · exact mem_append_left _ (hminted.discards held hheld)
  · intro calls call next hfresh hminted h
    exact minted_of_ok (exclusive_after calls) hminted hfresh h

end ShimpzTeams.Routines
