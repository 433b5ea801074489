import ShimpzTeams.Routines.Recorder.Choices

/-!
# A recorded plan replays its work

The steps of a recorded plan are its plan calls in order, named by position.
The plan was admitted and replayed before it was returned, so each call a step
stands for resolves, through the run's own selections, to what that call sent.
-/

namespace ShimpzTeams.Routines.Recorder

open StrictJson Protocol Library List

variable {step : Step} {document : Value} {plan : Plan} {position node : Nat}

section

variable [Platform] [SchemaEngine] {contracts : Contracts}

structure StepNames (raw : Value) (step : Step) : Prop where
  id : step.stepId = (string (fieldOf raw "id")).getD ""
  assistant : step.assistantId = (string (fieldOf raw "assistant")).getD ""
  action : step.action = (string (fieldOf raw "action")).getD ""
  pin : step.pin = (string (fieldOf raw "pin")).getD ""

theorem admittedStep_named {raw earlier} (h : admittedStep raw contracts earlier = .ok step) : StepNames raw step := by
  obtain ⟨hshape, -, hnames⟩ := admittedStep_parts h
  obtain ⟨-, hshape⟩ := guard_eq_ok.mp hshape
  obtain ⟨checked, -, hshape⟩ := bind_eq_ok.mp hshape
  exact ⟨(Except.ok.inj hshape).symm, hnames.1, hnames.2.1, hnames.2.2⟩

theorem admittedSteps_named {raws steps all} (h : admittedSteps contracts steps raws = .ok all) :
    ∃ added, all = steps ++ added ∧ List.Forall₂ StepNames raws added := by
  induction raws generalizing steps with
  | nil => exact ⟨[], by rw [append_nil, Except.ok.inj h], .nil⟩
  | cons raw rest ih =>
    obtain ⟨step, hstep, h⟩ := bind_eq_ok.mp h
    obtain ⟨added, rfl, hadded⟩ := ih h
    exact ⟨step :: added, by simp, .cons (admittedStep_named hstep) hadded⟩

theorem admitPlan_named {raws} (h : admitPlan document contracts = .ok plan)
    (hsteps : fieldOf document "steps" = .array raws) : List.Forall₂ StepNames raws plan.steps := by
  obtain ⟨parts, hparts, h⟩ := bind_eq_ok.mp h
  obtain ⟨steps, hadmitted, h⟩ := bind_eq_ok.mp h
  obtain ⟨done, -, h⟩ := bind_eq_ok.mp h
  cases h
  obtain ⟨added, rfl, hadded⟩ := admittedSteps_named hadmitted
  have hraws := (documentParts_ok hparts).1
  rw [hsteps] at hraws
  cases hraws
  exact hadded

omit [SchemaEngine] in
theorem StepsAdmitted.reference {steps} (h : StepsAdmitted steps) (hstep : steps[position]? = some step) {input}
    (hinput : input ∈ step.inputs) (hkind : isStepOutput input.2 = true) :
    ∃ earlier < position, ∃ found, steps[earlier]? = some found ∧
      string (fieldOf input.2 "step") = some found.stepId := by
  obtain ⟨hposition, hget⟩ := List.getElem?_eq_some_iff.mp hstep
  have hsplit : steps = steps.take position ++ step :: steps.drop (position + 1) := by
    rw [← hget, cons_getElem_drop_succ, take_append_drop]
  have hcheck := (h _ step _ hsplit).sources input hinput
  obtain ⟨-, hreference⟩ := checkSource_stepOutput hcheck hkind
  simp only [checkReference, Bool.and_eq_true, any_eq_true, beq_iff_eq] at hreference
  obtain ⟨⟨⟨known, hknown, hname⟩, -⟩, -⟩ := hreference
  obtain ⟨found, hfound, rfl⟩ := mem_map.mp hknown
  obtain ⟨earlier, hearlier⟩ := mem_iff_getElem?.mp hfound
  rw [getElem?_take] at hearlier
  split_ifs at hearlier with hlt
  exact ⟨earlier, hlt, found, hearlier, hname⟩

end

theorem step_of_getElem? (hids : (plan.steps.map Step.stepId).Nodup)
    (hstep : plan.steps[position]? = some step) : plan.step step.stepId = some step := by
  cases hfound : plan.step step.stepId with
  | none =>
    have hnone := find?_eq_none.mp hfound step (mem_of_getElem? hstep)
    simp at hnone
  | some found =>
    have hid : found.stepId = step.stepId := by simpa using find?_some hfound
    rw [inj_on_of_nodup_map hids (mem_of_find?_eq_some hfound) (mem_of_getElem? hstep) hid]

theorem exists_getElem? {α β related left} {right : List β}
    (h : List.Forall₂ related left right) {item : α} (hitem : left[position]? = some item) :
    ∃ other, right[position]? = some other ∧ related item other := by
  induction h generalizing position with
  | nil => simp at hitem
  | cons hfirst hrest ih =>
    cases position with
    | zero =>
      rw [getElem?_cons_zero] at hitem
      exact ⟨_, rfl, Option.some.inj hitem ▸ hfirst⟩
    | succ position =>
      rw [getElem?_cons_succ] at hitem ⊢
      exact ih hitem

section

variable [Platform] [SpanReader] [SchemaEngine]

structure Composed (context : Context) (work : List Call) (document : Value)
    (inputs : List (Nat × Classified)) (nodes : List (Nat × Call)) (order : List Nat) : Prop where
  nonempty : work ≠ []
  gathered : closure context work = .ok (inputs, nodes)
  ordered : orderedNodes inputs nodes = .ok order
  steps : fieldOf document "steps" = .array (stepsOf inputs nodes order)
  verified : verify context nodes order document = .ok ()

theorem planDocument_ok {context mode work origins} (h : planDocument context mode work = .ok (document, origins)) :
    ∃ inputs nodes order, Composed context work document inputs nodes order := by
  obtain ⟨hwork, h⟩ := guard_eq_ok.mp h
  obtain ⟨planned, hclosure, h⟩ := bind_eq_ok.mp h
  obtain ⟨order, hordered, h⟩ := bind_eq_ok.mp h
  obtain ⟨done, hverified, h⟩ := bind_eq_ok.mp h
  obtain ⟨rfl, -⟩ := Prod.ext_iff.mp (Except.ok.inj h)
  exact ⟨planned.1, planned.2, order, fun hnil => hwork (isEmpty_iff.mpr hnil), hclosure,
    mapError_eq_ok.mp hordered, rfl, mapError_eq_ok.mp hverified⟩

omit [SpanReader] in
theorem verify_ok {context nodes order} (h : verify context nodes order document = .ok ()) :
    ∃ plan selected, admitPlan document context.contracts = .ok plan ∧
      replaySelections plan (recordedResult nodes order) = .ok selected ∧
      ∀ entry ∈ plannedCalls context nodes order, replayCall context plan selected entry = .ok () := by
  obtain ⟨plan, hplan, h⟩ := bind_eq_ok.mp h
  obtain ⟨selected, hselected, h⟩ := bind_eq_ok.mp h
  obtain ⟨-, h⟩ := guard_eq_ok.mp h
  exact ⟨plan, selected, mapError_eq_ok.mp hplan, mapError_eq_ok.mp hselected, forM_eq_ok.mp h⟩

variable {context : Context} {work : List Call} {document : Value}
  {inputs : List (Nat × Classified)} {nodes : List (Nat × Call)} {order : List Nat}

omit [Platform] [SpanReader] [SchemaEngine] in
theorem nameOf_getElem? (horder : order.Nodup) (h : order[position]? = some node) :
    nameOf order node = some (stepName position) := by
  obtain ⟨hposition, hget⟩ := List.getElem?_eq_some_iff.mp h
  have hindex : order.idxOf? node = some position := by
    refine idxOf?_eq_some_iff.mpr ⟨hposition, hget, fun earlier hearlier hsame => ?_⟩
    exact Nat.ne_of_lt hearlier ((List.Nodup.getElem_inj_iff horder).mp (hsame.trans hget.symm))
  rw [nameOf, hindex, Option.map_some]

section

variable (h : Composed context work document inputs nodes order)

include h

theorem Composed.ordering : Ordered inputs nodes order :=
  ordered_of_ok (gathered_closure h.gathered).ascending h.ordered

theorem Composed.call_at (hnode : order[position]? = some node) :
    ∃ call, OrderedMap.get id node nodes = some call ∧ context.calls[node]? = some call := by
  have hplanned : node ∈ nodes.map Prod.fst := h.ordering.perm.mem_iff.mp (mem_of_getElem? hnode)
  obtain ⟨call, hcall⟩ := Option.isSome_iff_exists.mp (isSome_get_iff.mpr hplanned)
  exact ⟨call, hcall, (gathered_closure h.gathered).calls node call hcall⟩

theorem Composed.stepsOf_forall₂ : List.Forall₂ (fun node raw => ∃ call, OrderedMap.get id node nodes = some call ∧
      raw = stepOf inputs order node call) order (stepsOf inputs nodes order) := by
  have hcalls : ∀ node ∈ order, ∃ call, OrderedMap.get id node nodes = some call := by
    intro node hnode
    obtain ⟨position, hposition⟩ := mem_iff_getElem?.mp hnode
    obtain ⟨call, hcall, -⟩ := h.call_at hposition
    exact ⟨call, hcall⟩
  -- every name is of the whole order, so the induction is on the calls left
  suffices hall : ∀ rest : List Nat, (∀ node ∈ rest, ∃ call, OrderedMap.get id node nodes = some call) →
      List.Forall₂ (fun node raw => ∃ call, OrderedMap.get id node nodes = some call ∧
        raw = stepOf inputs order node call) rest
        (rest.filterMap fun node => (OrderedMap.get id node nodes).map (stepOf inputs order node)) from
    hall order hcalls
  intro rest
  induction rest with
  | nil => exact fun _ => .nil
  | cons node rest ih =>
    intro hrest
    obtain ⟨⟨call, hcall⟩, hrest⟩ := forall_mem_cons.mp hrest
    rw [filterMap_cons, hcall]
    exact .cons ⟨call, hcall, rfl⟩ (ih hrest)

section

variable (hplan : admitPlan document context.contracts = .ok plan)

include hplan

theorem Composed.step_at (hnode : order[position]? = some node) :
    ∃ call step, context.calls[node]? = some call ∧ plan.steps[position]? = some step ∧
      step.stepId = stepName position ∧ step.assistantId = call.occurrence.assistant ∧
      step.action = call.occurrence.action ∧ step.pin = call.occurrence.pin := by
  obtain ⟨raw, hraw, call, hcall, rfl⟩ := exists_getElem? h.stepsOf_forall₂ hnode
  obtain ⟨step, hstep, hnames⟩ := exists_getElem? (admitPlan_named hplan h.steps) hraw
  refine ⟨call, step, (gathered_closure h.gathered).calls node call hcall, hstep, ?_, hnames.assistant,
    hnames.action, hnames.pin⟩
  have hid := hnames.id
  rw [stepOf, nameOf_getElem? h.ordering.nodup hnode] at hid
  exact hid

theorem Composed.steps_length : plan.steps.length = order.length :=
  (admitPlan_named hplan h.steps).length_eq.symm.trans h.stepsOf_forall₂.length_eq.symm

/-- The steps are named `s1`, `s2`, and so on. -/
theorem Composed.named : plan.steps.map Step.stepId = (List.range order.length).map stepName := by
  refine ext_getElem? fun position => ?_
  rw [getElem?_map, getElem?_map]
  by_cases hposition : position < order.length
  · obtain ⟨call, step, -, hstep, hid, -⟩ :=
      h.step_at hplan (getElem?_eq_getElem hposition)
    rw [hstep, getElem?_range hposition, Option.map_some, Option.map_some, hid]
  · rw [getElem?_eq_none (by rw [h.steps_length hplan]; exact Nat.le_of_not_lt hposition),
      getElem?_eq_none (by rw [length_range]; exact Nat.le_of_not_lt hposition)]
    rfl

theorem Composed.result_at {call} (hnode : order[position]? = some node) (hcall : context.calls[node]? = some call) :
    recordedResult nodes order (stepName position) = some call.occurrence.result.value := by
  have hascending := (gathered_closure h.gathered).ascending
  have hids : ((List.range order.length).map stepName).Nodup := by
    rw [← h.named hplan]
    exact stepIds_nodup (admitPlan_ok hplan).1
  obtain ⟨found, hfound, hfoundCall⟩ := h.call_at hnode
  obtain rfl : found = call := Option.some.inj (hfoundCall.symm.trans hcall)
  have hname := nameOf_getElem? h.ordering.nodup hnode
  have hentry : (node, found) ∈ nodes := OrderedMap.mem_of_get Function.injective_id hfound
  cases hfirst : nodes.find? fun entry => nameOf order entry.1 == some (stepName position) with
  | none =>
    have hnone := find?_eq_none.mp hfirst _ hentry
    simp [hname] at hnone
  | some entry =>
    rw [recordedResult, hfirst, Option.map_some]
    -- a name is of one position only
    have hsame : nameOf order entry.1 = some (stepName position) := by
      simpa using find?_some hfirst
    have hmem : entry ∈ nodes := mem_of_find?_eq_some hfirst
    obtain ⟨other, hother⟩ := mem_iff_getElem?.mp
      (h.ordering.perm.mem_iff.mpr (mem_map_of_mem (f := Prod.fst) hmem))
    rw [nameOf_getElem? h.ordering.nodup hother] at hsame
    have hposition : other = position := inj_on_of_nodup_map hids
      (mem_range.mpr (List.getElem?_eq_some_iff.mp hother).1)
      (mem_range.mpr (List.getElem?_eq_some_iff.mp hnode).1) (Option.some.inj hsame)
    have hkey : entry.1 = node := Option.some.inj ((hposition ▸ hother).symm.trans hnode)
    have hget := OrderedMap.get_of_mem hascending hmem
    change OrderedMap.get id entry.1 nodes = some entry.2 at hget
    rw [hkey, hfound] at hget
    rw [Option.some.inj hget]

theorem Composed.replays_at {selected} (hreplayed : ∀ entry ∈ plannedCalls context nodes order,
      replayCall context plan selected entry = .ok ()) {call} (hcall : call ∈ context.calls)
    (hposition : order[position]? = some (context.classOf call.index)) :
    ∃ step resolved, plan.steps[position]? = some step ∧
      resolve plan step selected (context.startedAt call) (fun _ => true) = .ok resolved ∧
      same resolved call.occurrence.input.value = true := by
  obtain ⟨found, step, -, hstep, hid, -⟩ := h.step_at hplan hposition
  obtain ⟨node, hnode, -⟩ := h.call_at hposition
  have hentry : (call, stepName position) ∈ plannedCalls context nodes order := by
    refine mem_map.mpr ⟨call, mem_filter.mpr ⟨hcall, by rw [hnode]; rfl⟩, ?_⟩
    rw [nameOf_getElem? h.ordering.nodup hposition, Option.getD_some]
  have hresolved := hreplayed _ hentry
  have hkey : plan.step (stepName position) = some step := by
    rw [← hid]
    exact step_of_getElem? (stepIds_nodup (admitPlan_ok hplan).1) hstep
  simp only [replayCall, hkey] at hresolved
  obtain ⟨resolved, hresolve, hsame⟩ := bind_eq_ok.mp hresolved
  split_ifs at hsame with heq
  exact ⟨step, resolved, hstep, mapError_eq_ok.mp hresolve, heq⟩

end

end

end

section

variable [Platform] [SpanReader] [SchemaEngine]

/-- A plan that replays the recorded work of a request: its steps stand for calls of the span, by
dispatch index in the order of the steps. -/
structure Replays (request : Request) (plan : Plan) (order : List Nat) : Prop where
  named : plan.steps.map Step.stepId = (List.range order.length).map stepName
  distinct : order.Nodup
  /-- Each step runs the Action of its call. -/
  calls : ∀ position node : Nat, order[position]? = some node →
    ∃ (call : Call) (step : Step), request.calls[node]? = some call ∧ plan.steps[position]? = some step ∧
      step.assistantId = call.occurrence.assistant ∧ step.action = call.occurrence.action ∧
      step.pin = call.occurrence.pin
  /-- Every reference names an earlier step. -/
  references : ∀ (position : Nat) step, plan.steps[position]? = some step → ∀ input ∈ step.inputs,
    isStepOutput input.2 = true → ∃ earlier < position, string (fieldOf input.2 "step") = some (stepName earlier)
  work : ∀ call ∈ request.narrowedWork, request.context.classOf call.index ∈ order
  last : ∃ call ∈ request.narrowedWork, order.getLast? = some (request.context.classOf call.index)
  /-- A changing call stands before or after every other step as they were dispatched. -/
  changing : ∀ first second left right : Nat, order[first]? = some left → order[second]? = some right →
    (∃ call : Call, (request.calls[left]? = some call ∨ request.calls[right]? = some call) ∧
      call.readOnly = false) → (first < second ↔ left < right)
  /-- On the recorded results, every call of a step's class resolves to what it sent, at its own
  send's start. -/
  replays : ∃ recorded selected,
    (∀ (position node : Nat) (call : Call), order[position]? = some node → request.calls[node]? = some call →
      recorded (stepName position) = some call.occurrence.result.value) ∧
    replaySelections plan recorded = .ok selected ∧
    ∀ call ∈ request.calls, ∀ position : Nat,
      order[position]? = some (request.context.classOf call.index) →
        ∃ step resolved, plan.steps[position]? = some step ∧
          resolve plan step selected (request.context.startedAt call) (fun _ => true) = .ok resolved ∧
          same resolved call.occurrence.input.value = true

/-- A plan recorded from work is admitted and replays that work. -/
theorem recorded_plan_replays {request : Request} {kept : Recorded}
    (h : record request = .ok (.recorded kept)) (hwork : request.latest ≠ []) :
    ∃ plan order, admitPlan kept.document request.contracts = .ok plan ∧ Replays request plan order := by
  obtain ⟨mode, hfrom⟩ := record_recorded h hwork
  obtain ⟨inputs, nodes, order, hcomposed⟩ := planDocument_ok hfrom.planned
  obtain ⟨plan, selected, hplan, hselected, hreplayed⟩ := verify_ok hcomposed.verified
  have hgathered := gathered_closure hcomposed.gathered
  have hordered := hcomposed.ordering
  have hclasses : ∀ node ∈ workClasses request.context request.narrowedWork, node ∈ order :=
    fun node hnode => hordered.perm.mem_iff.mpr
      ((hgathered.rooted node hnode).resolve_right not_mem_nil)
  have hchanges : ∀ (position node : Nat) (call : Call), order[position]? = some node →
      request.calls[node]? = some call → call.readOnly = false → changes nodes node = true := by
    intro position node call hnode hcall hchanging
    obtain ⟨found, hfound, hfoundCall⟩ := hcomposed.call_at hnode
    obtain rfl : found = call := Option.some.inj (hfoundCall.symm.trans hcall)
    rw [changes, hfound, Option.any_some, hchanging, Bool.not_false]
  refine ⟨plan, order, hplan, hcomposed.named hplan, hordered.nodup, ?_, ?_, ?_, ?_, ?_, ?_⟩
  · intro position node hnode
    obtain ⟨call, step, hcall, hstep, -, hnames⟩ := hcomposed.step_at hplan hnode
    exact ⟨call, step, hcall, hstep, hnames⟩
  · intro position step hstep input hinput hkind
    obtain ⟨earlier, hearlier, found, hfound, hname⟩ :=
      StepsAdmitted.reference (admitPlan_ok hplan).1 hstep hinput hkind
    have hnode : earlier < order.length := by
      rw [← hcomposed.steps_length hplan]
      exact (List.getElem?_eq_some_iff.mp hfound).1
    obtain ⟨call, same, -, hsame, hid, -⟩ :=
      hcomposed.step_at hplan (getElem?_eq_getElem hnode)
    obtain rfl : same = found := Option.some.inj (hsame.symm.trans hfound)
    exact ⟨earlier, hearlier, hid ▸ hname⟩
  · intro call hcall
    exact hclasses _ (mem_map.mpr ⟨call, hcall, rfl⟩)
  · obtain ⟨first, hfirst⟩ := exists_mem_of_ne_nil _ hcomposed.nonempty
    have hnonempty : order ≠ [] :=
      ne_nil_of_mem (hclasses _ (mem_map.mpr ⟨first, hfirst, rfl⟩))
    have hlast := getLast?_eq_some_getLast hnonempty
    obtain ⟨call, hcall, hclass⟩ := mem_map.mp (hordered.last_mem hgathered hlast)
    exact ⟨call, hcall, hclass ▸ hlast⟩
  · rintro first second left right hleft hright ⟨call, hcall | hcall, hchanging⟩
    · exact hordered.changing_in_place hleft hright (.inl (hchanges _ _ call hleft hcall hchanging))
    · exact hordered.changing_in_place hleft hright (.inr (hchanges _ _ call hright hcall hchanging))
  · exact ⟨recordedResult nodes order, selected,
      fun position node call hnode hcall => hcomposed.result_at hplan hnode hcall, hselected,
      fun call hcall position hposition => hcomposed.replays_at hplan hreplayed hcall hposition⟩

end

attribute [local instance] constantHashPlatform openEngine silentReader

theorem recorded_plan_replays_answered : ∃ kept plan order,
    record (answering ["target-1"]) = .ok (.recorded kept) ∧
      admitPlan kept.document choiceContracts = .ok plan ∧
      Replays (answering ["target-1"]) plan order := by
  obtain ⟨kept, hkept, hwork⟩ := answered_recorded
  obtain ⟨plan, order, hplan, hreplays⟩ := recorded_plan_replays hkept hwork
  exact ⟨kept, plan, order, hkept, hplan, hreplays⟩

end ShimpzTeams.Routines.Recorder
