import ShimpzTeams.Routines.Cursor

/-!
# The references of an admitted plan

Every reference of an admitted plan selects from an earlier step, by a key in
its closed shape. A run retains exactly the keys its completed steps are
referred to by, so the input of its current step always finds its selections.
-/

namespace ShimpzTeams.Routines

open StrictJson Protocol Library List

variable {earlier tokens : List String} {done : Unit} {raw document source value result : Value}
  {step : Step} {steps : List Step} {refusal : PlanError} {chosen : List (Selector × Value)} {cursor : Cursor}

section

variable [Platform]

/-- A step in its closed shape after some earlier ones. -/
structure StepAdmitted (step : Step) (earlier : List String) : Prop where
  id : routineStepIdRe step.stepId = true
  fresh : step.stepId ∉ earlier
  sources : ∀ input ∈ step.inputs, checkSource input.2 earlier = .ok ()

def StepsAdmitted (steps : List Step) : Prop :=
  ∀ before step after, steps = before ++ step :: after → StepAdmitted step (before.map Step.stepId)

theorem checkSources_ok {inputs} (h : checkSources earlier inputs = .ok done) :
    ∀ input ∈ inputs, checkSource input.2 earlier = .ok () := by
  induction inputs with
  | nil =>
    intro input hinput
    cases hinput
  | cons input rest ih =>
    obtain ⟨passed, hinput, hrest⟩ := bind_eq_ok.mp h
    exact forall_mem_cons.mpr ⟨hinput, ih hrest⟩

theorem stepShape_ok {id} (h : stepShape raw earlier = .ok id) : routineStepIdRe id = true ∧ id ∉ earlier ∧
      ∀ input ∈ members (fieldOf raw "input"), checkSource input.2 earlier = .ok () := by
  obtain ⟨hidentity, h⟩ := guard_eq_ok.mp h
  obtain ⟨done, hsources, h⟩ := bind_eq_ok.mp h
  cases h
  simp only [Bool.not_eq_true, Bool.not_eq_false', stepIdentity, Bool.and_eq_true] at hidentity
  obtain ⟨⟨⟨⟨⟨⟨-, hid⟩, hfresh⟩, -⟩, -⟩, -⟩, -⟩ := hidentity
  cases hraw : fieldOf raw "id" with
  | string text =>
    rw [hraw] at hid hfresh
    refine ⟨hid, ?_, checkSources_ok hsources⟩
    intro hmem
    have hknown : (earlier.any fun known => string (.string text) == some known) = true :=
      any_eq_true.mpr ⟨text, hmem, beq_self_eq_true (some text)⟩
    rw [hknown] at hfresh
    cases hfresh
  | null | bool | number | array | object =>
    rw [hraw] at hid
    cases hid

variable [SchemaEngine] {contracts : Contracts}

theorem admittedStep_parts (h : admittedStep raw contracts earlier = .ok step) :
    stepShape raw earlier = .ok step.stepId ∧ step.inputs = members (fieldOf raw "input") ∧
      step.assistantId = (string (fieldOf raw "assistant")).getD "" ∧
      step.action = (string (fieldOf raw "action")).getD "" ∧ step.pin = (string (fieldOf raw "pin")).getD "" := by
  obtain ⟨id, hshape, h⟩ := bind_eq_ok.mp h
  obtain ⟨contract, -, h⟩ := bind_eq_ok.mp h
  obtain ⟨-, h⟩ := guard_eq_ok.mp h
  obtain ⟨-, h⟩ := guard_eq_ok.mp h
  obtain ⟨supplied, -, h⟩ := bind_eq_ok.mp h
  obtain ⟨secret, -, h⟩ := bind_eq_ok.mp h
  obtain ⟨-, h⟩ := guard_eq_ok.mp h
  obtain ⟨done, -, h⟩ := bind_eq_ok.mp h
  cases h
  exact ⟨hshape, rfl, rfl, rfl, rfl⟩

theorem admittedStep_ok (h : admittedStep raw contracts earlier = .ok step) : StepAdmitted step earlier := by
  obtain ⟨hshape, hinputs, -⟩ := admittedStep_parts h
  obtain ⟨hid, hfresh, hsources⟩ := stepShape_ok hshape
  exact ⟨hid, hfresh, hinputs ▸ hsources⟩

omit [SchemaEngine] in
theorem StepsAdmitted.append (h : StepsAdmitted steps)
    (hstep : StepAdmitted step (steps.map Step.stepId)) : StepsAdmitted (steps ++ [step]) :=
  forall_split_snoc h hstep

theorem admittedSteps_ok {raws all} (h : admittedSteps contracts steps raws = .ok all) (hsteps : StepsAdmitted steps) :
    StepsAdmitted all ∧ all.length = steps.length + raws.length := by
  induction raws generalizing steps with
  | nil =>
    cases h
    exact ⟨hsteps, rfl⟩
  | cons raw rest ih =>
    obtain ⟨step, hstep, h⟩ := bind_eq_ok.mp h
    obtain ⟨hall, hlength⟩ := ih h (hsteps.append (admittedStep_ok hstep))
    refine ⟨hall, ?_⟩
    rw [hlength, length_append, length_singleton, length_cons]
    omega

omit [SchemaEngine] in
theorem documentParts_ok {parts} (h : documentParts document = .ok parts) :
    array (fieldOf document "steps") = some parts.1 ∧ parts.1.length ≤ maxSteps := by
  obtain ⟨-, h⟩ := guard_eq_ok.mp h
  obtain ⟨-, h⟩ := guard_eq_ok.mp h
  obtain ⟨-, h⟩ := guard_eq_ok.mp h
  cases harray : array (fieldOf document "steps") with
  | none =>
    rw [harray] at h
    cases h
  | some raws =>
    rw [harray] at h
    obtain ⟨hbound, h⟩ := guard_eq_ok.mp h
    cases h
    exact ⟨rfl, not_lt.mp hbound⟩

theorem admitPlan_ok {plan} (h : admitPlan document contracts = .ok plan) :
    StepsAdmitted plan.steps ∧ plan.steps.length ≤ maxSteps := by
  obtain ⟨parts, hparts, h⟩ := bind_eq_ok.mp h
  obtain ⟨steps, hsteps, h⟩ := bind_eq_ok.mp h
  obtain ⟨done, -, h⟩ := bind_eq_ok.mp h
  cases h
  obtain ⟨hadmitted, hlength⟩ := admittedSteps_ok hsteps fun before step after hnil => by simp at hnil
  refine ⟨hadmitted, ?_⟩
  rw [length_nil, Nat.zero_add] at hlength
  exact hlength ▸ (documentParts_ok hparts).2

end

section

theorem whereShape_eq_object {condition} (h : whereShape condition = true) :
    ∃ constant, condition = .object [constant] ∧ (isString constant.2 = true ∨ isInteger constant.2 = true) := by
  cases condition with
  | object found =>
    simp only [whereShape, object, Option.any_some, Bool.and_eq_true, beq_iff_eq] at h
    obtain ⟨hlength, hall⟩ := h
    obtain ⟨constant, rfl⟩ := length_eq_one_iff.mp hlength
    exact ⟨constant, rfl, by simpa using hall⟩
  | null | bool | number | string | array => cases h

theorem isPointer_iff {pointer} :
    isPointer pointer = true ↔ ∃ text, pointer = .string text ∧ (pointerTokensOf text).isSome = true := by
  have htext : ∀ text : String, isPointer (.string text) = (pointerTokensOf text).isSome := by
    intro text
    rw [isPointer, string, Option.any_some, pointerTokensOf]
    by_cases hlength : maxPointerChars < text.length
    · simp [hlength, not_le.mpr hlength]
    · by_cases hpattern : pointerRe text = true
      · by_cases hempty : text.isEmpty = true
        · simp [hlength, hpattern, hempty, not_lt.mp hlength]
        · simp [hlength, hpattern, hempty, not_lt.mp hlength]
      · simp [hlength, hpattern]
  cases pointer with
  | string text => simp [htext]
  | null | bool | number | array | object =>
    constructor
    · intro h
      cases h
    · rintro ⟨text, htext, -⟩
      cases htext

theorem get_eq_none_of_hasFields {fields name}
    (h : hasFields source fields = true) (hname : name ∉ fields) : source.get name = none := by
  cases source with
  | object found =>
    simp only [hasFields, hasExactly, Bool.and_eq_true, all_eq_true, contains_iff_mem] at h
    rw [Value.get, Option.map_eq_none_iff, find?_eq_none]
    intro member hmember hsame
    exact hname (beq_iff_eq.mp hsame ▸ h.2 member hmember)
  | null | bool | number | string | array => rfl

/-- An object that has exactly some member names and names none twice has each of them. -/
theorem get_ne_none_of_hasFields {fields name}
    (h : hasFields source fields = true) (hunique : ((members source).map Prod.fst).Nodup)
    (hname : name ∈ fields) : source.get name ≠ none := by
  cases source with
  | object found =>
    simp only [hasFields, hasExactly, Bool.and_eq_true, all_eq_true, contains_iff_mem, beq_iff_eq] at h
    have hsubset : found.map Prod.fst ⊆ fields := by
      intro key hkey
      obtain ⟨member, hmember, rfl⟩ := mem_map.mp hkey
      exact h.2 member hmember
    have hperm : (found.map Prod.fst).Perm fields :=
      (subperm_of_subset hunique hsubset).perm_of_length_le (by simp [members, h.1])
    obtain ⟨member, hmember, hkey⟩ := mem_map.mp (hperm.mem_iff.mpr hname)
    rw [Value.get, Ne, Option.map_eq_none_iff, find?_eq_none]
    intro hnone
    exact hnone member hmember (beq_iff_eq.mpr hkey)
  | null | bool | number | string | array => cases h

variable [Platform]

/-- A source as the strict reader decodes one: it names no member twice, and its condition reads back. -/
structure Readable (source : Value) : Prop where
  unique : ((members source).map Prod.fst).Nodup
  condition : ∀ condition, source.get "where" = some condition → whereShape condition = true →
    parse (canonical condition) = .ok condition

structure SelectorFormed (selector : Selector) : Prop where
  pointer : (pointerTokensOf selector.pointer).isSome = true
  item : (pointerTokensOf selector.item).isSome = true
  plain : selector.whereText = "" → selector.item = ""
  condition : selector.whereText ≠ "" → ∃ constant, whereShape (.object [constant]) = true ∧
    parse selector.whereText = .ok (.object [constant])

theorem canonical_object_ne_empty (found) : canonical (.object found) ≠ "" := by
  intro h
  have htext := congrArg String.toList h
  rw [canonical, dumps, String.toList_ofList, writeValue] at htext
  cases htext

/-- The two closed shapes of a reference. -/
theorem checkSource_stepOutput (h : checkSource source earlier = .ok done) (hkind : isStepOutput source = true) :
    (hasFields source ["kind", "step", "pointer"] = true ∨
      hasFields source ["kind", "step", "pointer", "where", "item"] = true) ∧ checkReference source earlier = true := by
  have hkind : string (fieldOf source "kind") = some "step_output" := beq_iff_eq.mp hkind
  rw [checkSource] at h
  cases hfound : sourceKind source with
  | none =>
    rw [hfound] at h
    cases h
  | some kind =>
    rw [hfound] at h
    obtain ⟨hsame, hshape⟩ := Option.filter_eq_some_iff.mp hfound
    obtain rfl : "step_output" = kind := Option.some.inj (hkind.symm.trans hsame)
    refine ⟨by simpa [sourceFields] using hshape, ?_⟩
    by_contra hreference
    simp [hreference] at h

theorem selector_formed (h : checkSource source earlier = .ok done)
    (hkind : isStepOutput source = true) (hreadable : Readable source) :
    (∃ id ∈ earlier, string (fieldOf source "step") = some id) ∧ SelectorFormed (selector source).2 := by
  obtain ⟨hfields, hreference⟩ := checkSource_stepOutput h hkind
  simp only [checkReference, Bool.and_eq_true, Bool.or_eq_true, any_eq_true, beq_iff_eq,
    Option.isNone_iff_eq_none] at hreference
  obtain ⟨⟨hstep, hpointer⟩, hwhere⟩ := hreference
  obtain ⟨pointer, hpointerText, hpointer⟩ := isPointer_iff.mp hpointer
  refine ⟨hstep, ?_⟩
  rcases hwhere with hnone | ⟨hshape, hitem⟩
  · -- without a condition only the shape without an item is left
    have hplain : hasFields source ["kind", "step", "pointer"] = true := by
      rcases hfields with hplain | hfull
      · exact hplain
      · exact absurd hnone (get_ne_none_of_hasFields hfull hreadable.unique (by simp))
    have hwhere : fieldOf source "where" = .null := by rw [fieldOf, hnone, Option.getD_none]
    have hitem : fieldOf source "item" = .null := by
      rw [fieldOf, get_eq_none_of_hasFields hplain (by simp), Option.getD_none]
    have hselector : (selector source).2 = ⟨pointer, "", ""⟩ := by
      simp [selector, hpointerText, hwhere, hitem, isNull, string]
    have hempty : (pointerTokensOf "").isSome = true := rfl
    rw [hselector]
    exact ⟨hpointer, hempty, fun _ => rfl, fun hcondition => absurd rfl hcondition⟩
  · obtain ⟨item, hitemText, hitem⟩ := isPointer_iff.mp hitem
    obtain ⟨constant, hcondition, -⟩ := whereShape_eq_object hshape
    have hselector : (selector source).2 = ⟨pointer, canonical (.object [constant]), item⟩ := by
      simp [selector, hpointerText, hitemText, hcondition, isNull, string]
    have hget : source.get "where" = some (.object [constant]) := by
      rw [fieldOf] at hcondition
      cases hget : source.get "where" with
      | none =>
        rw [hget] at hcondition
        cases hcondition
      | some found =>
        rw [hget] at hcondition
        exact congrArg some hcondition
    rw [hcondition] at hshape
    rw [hselector]
    refine ⟨hpointer, hitem, ?_, fun _ => ⟨constant, hshape, hreadable.condition _ hget hshape⟩⟩
    intro hempty
    exact absurd hempty (canonical_object_ne_empty _)

theorem readable_of_decoded (h : Decoded source) : Readable source := by
  cases h with
  | object hunique hmembers =>
    refine ⟨hunique, fun condition hget hshape => ?_⟩
    obtain ⟨member, hmember, rfl⟩ := Option.map_eq_some_iff.mp hget
    have hdecoded := hmembers member (mem_of_find?_eq_some hmember)
    obtain ⟨⟨name, constant⟩, hcondition, hscalar⟩ := whereShape_eq_object hshape
    rw [hcondition] at hdecoded ⊢
    -- a string or an integer has no members to sort
    have hsorted : sorted constant = constant := by
      cases constant with
      | null | bool | number | string => rfl
      | array | object => rcases hscalar with h | h <;> cases h
    have hnesting : nesting (.object [(name, constant)]) ≤ maxDepth := by
      cases constant with
      | null | bool | number | string => simp [nesting, nestingMembers, maxDepth]
      | array | object => rcases hscalar with h | h <;> cases h
    have hread := parse_canonical hdecoded hnesting
    rwa [sorted, sortedMembers, sortedMembers, hsorted, insertionSort_cons,
      insertionSort_nil, orderedInsert_nil] at hread
  | null | bool | int | bigInt | float | string | array =>
    exact ⟨nodup_nil, fun condition hget => by cases hget⟩

end

section

theorem select_error {pointer} (htokens : pointerTokensOf pointer = some tokens)
    (h : select value (text pointer) = .error refusal) :
    refusal = .referenceMissing ∧ followAll value tokens = none := by
  have hpointer : (string (text pointer)).bind pointerTokensOf = some tokens := htokens
  rw [select, hpointer] at h
  cases hfound : followAll value tokens with
  | none =>
    simp only [hfound] at h
    exact ⟨(Except.error.inj h).symm, rfl⟩
  | some found =>
    simp only [hfound] at h
    cases h

theorem select_ok {found pointer}
    (htokens : pointerTokensOf pointer = some tokens) (h : select value (text pointer) = .ok found) :
    followAll value tokens = some found := by
  have hpointer : (string (text pointer)).bind pointerTokensOf = some tokens := htokens
  rw [select, hpointer] at h
  cases hfound : followAll value tokens with
  | none =>
    simp only [hfound] at h
    cases h
  | some other =>
    simp only [hfound] at h
    exact congrArg some (Except.ok.inj h)

variable [Platform]

inductive Unselected (result : Value) (selector : Selector) : PlanError → Prop where
  /-- The result lacks the path. -/
  | path {tokens : List String} (htokens : pointerTokensOf selector.pointer = some tokens)
      (hmissing : followAll result tokens = none) : Unselected result selector .referenceMissing
  /-- What the path leads to is no array. -/
  | notArray {tokens found} (htokens : pointerTokensOf selector.pointer = some tokens)
      (hfound : followAll result tokens = some found) (hcondition : selector.whereText ≠ "")
      (harray : array found = none) : Unselected result selector .referenceMissing
  /-- No item of the array matches. -/
  | noItem {tokens items constant} (htokens : pointerTokensOf selector.pointer = some tokens)
      (hfound : followAll result tokens = some (.array items))
      (hcondition : parse selector.whereText = .ok (.object [constant]))
      (hnone : matchingItems constant items = []) : Unselected result selector .referenceMissing
  | itemPath {tokens itemTokens items constant one} (htokens : pointerTokensOf selector.pointer = some tokens)
      (hfound : followAll result tokens = some (.array items))
      (hcondition : parse selector.whereText = .ok (.object [constant]))
      (hone : matchingItems constant items = [one])
      (hitem : pointerTokensOf selector.item = some itemTokens)
      (hmissing : followAll one itemTokens = none) : Unselected result selector .referenceMissing
  | several {tokens items constant} (htokens : pointerTokensOf selector.pointer = some tokens)
      (hfound : followAll result tokens = some (.array items))
      (hcondition : parse selector.whereText = .ok (.object [constant]))
      (hseveral : 2 ≤ (matchingItems constant items).length) :
      Unselected result selector .referenceAmbiguous

theorem selectWhere_error {selector constant itemTokens} (htokens : pointerTokensOf selector.pointer = some tokens)
    (hitem : pointerTokensOf selector.item = some itemTokens)
    (hshape : whereShape (.object [constant]) = true) (hcondition : selector.whereText ≠ "")
    (hparse : parse selector.whereText = .ok (.object [constant]))
    (h : selectWhere result (text selector.pointer) (.object [constant]) (text selector.item) =
      .error refusal) : Unselected result selector refusal := by
  rw [selectWhere, if_neg (by simp [string, text, htokens, hitem, hshape])] at h
  rcases bind_eq_error.mp h with h | ⟨found, hfound, h⟩
  · obtain ⟨rfl, hmissing⟩ := select_error htokens h
    exact .path htokens hmissing
  · have hfollow := select_ok htokens hfound
    cases found with
    | array items =>
      cases hmatching : matchingItems constant items with
      | nil =>
        simp only [members, hmatching] at h
        cases h
        exact .noItem htokens hfollow hparse hmatching
      | cons one rest =>
        cases rest with
        | nil =>
          simp only [members, hmatching] at h
          obtain ⟨rfl, hmissing⟩ := select_error hitem h
          exact .itemPath htokens hfollow hparse hmatching hitem hmissing
        | cons other rest =>
          simp only [members, hmatching] at h
          cases h
          exact .several htokens hfollow hparse (by simp [hmatching])
    | null | bool | number | string | object =>
      cases h
      exact .notArray htokens hfollow hcondition rfl

/-- A selector in its closed shape fails only for what the result holds. -/
theorem selected_error {selector} (hformed : SelectorFormed selector)
    (h : selected result selector = .error refusal) : Unselected result selector refusal := by
  obtain ⟨tokens, htokens⟩ := Option.isSome_iff_exists.mp hformed.pointer
  obtain ⟨itemTokens, hitem⟩ := Option.isSome_iff_exists.mp hformed.item
  rw [selected] at h
  by_cases hempty : selector.whereText = ""
  · rw [if_pos (by rw [hempty]; rfl)] at h
    obtain ⟨rfl, hmissing⟩ := select_error htokens h
    exact .path htokens hmissing
  · obtain ⟨constant, hshape, hparse⟩ := hformed.condition hempty
    rw [if_neg (by simpa using hempty), hparse] at h
    exact selectWhere_error htokens hitem hshape hempty hparse h

end

section

variable [Platform]

def keysOf (plan : Plan) (steps : List Step) : List Key :=
  steps.flatMap fun step => (plan.references step.stepId).map fun selector => (step.stepId, selector)

variable {plan : Plan}

omit [Platform] in
theorem parts_injective : Function.Injective Selector.parts := by
  rintro ⟨pointer, whereText, item⟩ ⟨otherPointer, otherWhere, otherItem⟩ h
  simp only [Selector.parts, List.cons.injEq, and_true] at h
  obtain ⟨rfl, rfl, rfl⟩ := h
  rfl

theorem mem_references {stepId found} : found ∈ plan.references stepId ↔
      ∃ source ∈ plan.sources, isStepOutput source = true ∧
        string (fieldOf source "step") = some stepId ∧ (selector source).2 = found := by
  rw [Plan.references, OrderedMap.mem_setOf parts_injective, mem_map]
  simp only [mem_filter, Bool.and_eq_true, beq_iff_eq, and_assoc]

theorem selections_keys {stepId} (h : selections plan stepId result = .ok chosen) :
    chosen.map Prod.fst = plan.references stepId := by
  have hpairs := mapM_eq_ok.mp h
  rw [← List.forall₂_eq_eq_eq, List.forall₂_map_left_iff]
  refine hpairs.flip.imp fun entry selector hentry => ?_
  obtain ⟨value, -, rfl⟩ := map_eq_ok.mp hentry
  rfl

theorem checkSource_of_mem (hadmitted : StepsAdmitted plan.steps) (h : source ∈ plan.sources) :
    ∃ before step after, plan.steps = before ++ step :: after ∧
      checkSource source (before.map Step.stepId) = .ok () := by
  obtain ⟨step, hstep, hsource⟩ := mem_flatMap.mp h
  obtain ⟨input, hinput, rfl⟩ := mem_map.mp hsource
  obtain ⟨before, after, hsplit⟩ := append_of_mem hstep
  exact ⟨before, step, after, hsplit, (hadmitted before step after hsplit).sources input hinput⟩

theorem reference_formed (hadmitted : StepsAdmitted plan.steps)
    (hreadable : ∀ source ∈ plan.sources, Readable source) (h : source ∈ plan.sources)
    (hkind : isStepOutput source = true) :
    string (fieldOf source "step") = some (selector source).1 ∧ SelectorFormed (selector source).2 := by
  obtain ⟨before, step, after, -, hcheck⟩ := checkSource_of_mem hadmitted h
  obtain ⟨⟨id, -, hid⟩, hformed⟩ := selector_formed hcheck hkind (hreadable source h)
  refine ⟨?_, hformed⟩
  rw [selector, hid, Option.getD_some]

theorem mem_keysOf (hadmitted : StepsAdmitted plan.steps) (hreadable : ∀ source ∈ plan.sources, Readable source) {key} :
    key ∈ keysOf plan steps ↔ ∃ source ∈ plan.sources, isStepOutput source = true ∧
      selector source = key ∧ ∃ step ∈ steps, step.stepId = key.1 := by
  constructor
  · intro h
    obtain ⟨step, hstep, hkey⟩ := mem_flatMap.mp h
    obtain ⟨found, hfound, rfl⟩ := mem_map.mp hkey
    obtain ⟨source, hsource, hkind, hid, rfl⟩ := mem_references.mp hfound
    have hselector := (reference_formed hadmitted hreadable hsource hkind).1
    have hfirst : (selector source).1 = step.stepId := Option.some.inj (hselector.symm.trans hid)
    exact ⟨source, hsource, hkind, Prod.ext hfirst rfl, step, hstep, rfl⟩
  · rintro ⟨source, hsource, hkind, rfl, step, hstep, hid⟩
    have hselector := (reference_formed hadmitted hreadable hsource hkind).1
    refine mem_flatMap.mpr ⟨step, hstep, mem_map.mpr ⟨(selector source).2, ?_, ?_⟩⟩
    · exact mem_references.mpr ⟨source, hsource, hkind, hid ▸ hselector, rfl⟩
    · exact Prod.ext hid rfl

theorem stepIds_nodup (h : StepsAdmitted steps) : (steps.map Step.stepId).Nodup := by
  induction steps using List.reverseRecOn with
  | nil => exact nodup_nil
  | append_singleton steps step ih =>
    have hsteps : StepsAdmitted steps := forall_split_cut h
    rw [map_append, map_singleton, nodup_append_comm, singleton_append, nodup_cons]
    exact ⟨(h steps step [] rfl).fresh, ih hsteps⟩

theorem nodup_keysOf (h : (steps.map Step.stepId).Nodup) : (keysOf plan steps).Nodup := by
  rw [keysOf, nodup_flatMap]
  refine ⟨fun step _ => ?_, (pairwise_map.mp h).imp fun hne => ?_⟩
  · exact (OrderedMap.nodup_setOf _).map fun left right hpair => (Prod.mk.inj hpair).2
  · intro key hleft hright
    obtain ⟨left, -, rfl⟩ := mem_map.mp hleft
    obtain ⟨right, -, hkey⟩ := mem_map.mp hright
    exact hne (Prod.mk.inj hkey).1.symm

theorem keyValid_of_mem (hadmitted : StepsAdmitted plan.steps)
    (hreadable : ∀ source ∈ plan.sources, Readable source) {key}
    (hsteps : ∀ step ∈ steps, routineStepIdRe step.stepId = true) (h : key ∈ keysOf plan steps) :
    keyValid key = true := by
  obtain ⟨source, hsource, hkind, rfl, step, hstep, hid⟩ := (mem_keysOf hadmitted hreadable).mp h
  obtain ⟨-, hformed⟩ := reference_formed hadmitted hreadable hsource hkind
  have hplain :
      (!((selector source).2.whereText.isEmpty && !(selector source).2.item.isEmpty)) = true := by
    by_cases hempty : (selector source).2.whereText = ""
    · simp [hformed.plain hempty]
    · simp [hempty]
  simp only [keyValid, Bool.and_eq_true]
  exact ⟨⟨⟨hid ▸ hsteps step hstep, hformed.pointer⟩, hplain⟩, hformed.item⟩

end

section

variable [Platform]

structure KeysKept (plan : Plan) (cursor : Cursor) : Prop where
  keys : cursor.selected.map Prod.fst = keysOf plan (plan.steps.take cursor.step)
  step : cursor.step ≤ plan.steps.length
  digest : cursor.plan = plan.digest

variable {plan : Plan} {before after : Cursor}

theorem keys_advanced (hkeys : before.selected.map Prod.fst = keysOf plan (plan.steps.take before.step))
    (hstep : plan.steps[before.step]? = some step) (hchosen : selections plan step.stepId result = .ok chosen) (shown) :
    (before.advanced step.stepId chosen shown).selected.map Prod.fst =
      keysOf plan (plan.steps.take (before.step + 1)) := by
  have hnew : (chosen.map fun entry => ((step.stepId, entry.1), entry.2)).map Prod.fst =
      (plan.references step.stepId).map fun selector => (step.stepId, selector) := by
    rw [← selections_keys hchosen, map_map, map_map]
    rfl
  rw [Cursor.advanced, map_append, hkeys, hnew, take_add_one, hstep, Option.toList_some,
    keysOf, keysOf, flatMap_append, flatMap_singleton]

theorem Advance.keysKept {transition} (h : Advance plan before transition after)
    (hkept : KeysKept plan before) : KeysKept plan after := by
  cases h with
  | completed hplan hoperation hstep hchosen =>
    exact ⟨keys_advanced hkept.keys hstep hchosen _, (List.getElem?_eq_some_iff.mp hstep).1, hkept.digest⟩
  | dispatched | failed | provenAbsent | retried | opened | continued | unprotected =>
    exact ⟨hkept.keys, hkept.step, hkept.digest⟩

theorem keysKept_after {binding startedAt boot first} (hstart : startCursor plan binding startedAt boot = .ok first)
    (transitions) : KeysKept plan (cursorAfter plan first transitions) := by
  refine run_invariant (fun _ _ _ hkept happlied => (advance_ok happlied).1.keysKept hkept) ?_
    transitions
  obtain ⟨rfl, -⟩ := checked_ok hstart
  exact ⟨rfl, Nat.zero_le _, rfl⟩

omit [Platform] in
theorem get_selections {key} (h : key ∈ cursor.selected.map Prod.fst) :
    OrderedMap.get keyParts key cursor.selections ≠ none := by
  obtain ⟨entry, hentry, rfl⟩ := mem_map.mp h
  rw [Cursor.selections, OrderedMap.get_ofEntries, Ne, OrderedMap.get_eq_none]
  intro hnone
  exact hnone entry (mem_reverse.mpr hentry) rfl

/-- Resolving a step whose references are all retained fails for another reason than a selection. -/
theorem resolve_error {entries startedAt validate}
    (hkinds : ∀ input ∈ step.inputs, string (fieldOf input.2 "kind") ≠ some "literal" →
      string (fieldOf input.2 "kind") ≠ some "run_clock" → OrderedMap.get keyParts (selector input.2) entries ≠ none)
    (h : resolve plan step entries startedAt validate = .error refusal) :
    refusal ∈ [PlanError.timezoneInvalid, .inputInvalid, .inputTooLarge, .inputType] := by
  rcases bind_eq_error.mp h with h | ⟨resolved, -, h⟩
  · obtain ⟨input, hinput, h⟩ := exists_of_mapM_error h
    have h := map_eq_error.mp h
    rw [resolvedValue] at h
    split_ifs at h with hliteral hclock
    · cases hzone : zone (text plan.timezone) with
      | none =>
        rw [hzone] at h
        simp [← Except.error.inj h]
      | some found =>
        rw [hzone] at h
        cases hvalue : clockValue input.2 startedAt found with
        | none =>
          simp only [hvalue] at h
          simp [← Except.error.inj h]
        | some value =>
          simp only [hvalue] at h
          cases h
    · have hget := hkinds input hinput (by simpa using hliteral) (by simpa using hclock)
      obtain ⟨value, hvalue⟩ := Option.ne_none_iff_exists'.mp hget
      rw [hvalue] at h
      cases h
  · split_ifs at h
    · simp [← Except.error.inj h]
    · simp [← Except.error.inj h]

theorem isStepOutput_of_checkSource (h : checkSource source earlier = .ok done)
    (hliteral : string (fieldOf source "kind") ≠ some "literal")
    (hclock : string (fieldOf source "kind") ≠ some "run_clock") : isStepOutput source = true := by
  rw [checkSource] at h
  cases hfound : sourceKind source with
  | none =>
    rw [hfound] at h
    cases h
  | some kind =>
    obtain ⟨hkind, hshape⟩ := Option.filter_eq_some_iff.mp hfound
    rw [hkind] at hliteral hclock
    rw [isStepOutput, hkind]
    simp only [sourceFields, any_cons, any_nil, Bool.or_false, Bool.or_eq_true,
      Bool.and_eq_true, beq_iff_eq] at hshape
    rcases hshape with ⟨rfl, -⟩ | ⟨rfl, -⟩ | ⟨rfl, -⟩ | ⟨rfl, -⟩ | ⟨rfl, -⟩
    · exact absurd rfl hliteral
    · exact absurd rfl hclock
    · exact absurd rfl hclock
    · rfl
    · rfl

theorem current_key_mem (hadmitted : StepsAdmitted plan.steps)
    (hreadable : ∀ source ∈ plan.sources, Readable source) {index}
    (hstep : plan.steps[index]? = some step) {input} (hinput : input ∈ step.inputs)
    (hkind : isStepOutput input.2 = true) : selector input.2 ∈ keysOf plan (plan.steps.take index) := by
  obtain ⟨hindex, hget⟩ := List.getElem?_eq_some_iff.mp hstep
  have hsplit : plan.steps = plan.steps.take index ++ step :: plan.steps.drop (index + 1) := by
    rw [← hget, cons_getElem_drop_succ, take_append_drop]
  have hsource : input.2 ∈ plan.sources := mem_flatMap.mpr ⟨step, mem_of_getElem? hstep, mem_map_of_mem hinput⟩
  have hcheck := (hadmitted _ step _ hsplit).sources input hinput
  obtain ⟨⟨id, hid, hname⟩, -⟩ := selector_formed hcheck hkind (hreadable _ hsource)
  obtain ⟨earlier, hearlier, rfl⟩ := mem_map.mp hid
  have hkey := (reference_formed hadmitted hreadable hsource hkind).1
  exact (mem_keysOf hadmitted hreadable).mpr ⟨input.2, hsource, hkind, rfl, earlier, hearlier,
    Option.some.inj (hname.symm.trans hkey)⟩

inductive CompletionRefused (plan : Plan) (cursor : Cursor) (result : Value) (shown : Option Value) :
    CursorError → Prop where
  | notDispatched (h : cursor.done plan = true ∨ cursor.operationId = none) :
      CompletionRefused plan cursor result shown .notDispatched
  /-- A selector finds nothing, or several items, in the result. -/
  | selection {step selector refusal} (hstep : plan.steps[cursor.step]? = some step)
      (hselector : selector ∈ plan.references step.stepId)
      (h : Unselected result selector refusal) :
      CompletionRefused plan cursor result shown (.selection refusal)
  | shownMismatch {step : Step} (hstep : plan.steps[cursor.step]? = some step)
      (h : shownMatches cursor plan step.stepId shown = false) :
      CompletionRefused plan cursor result shown .shownInvalid
  | retained {step : Step} {chosen : List (Selector × Value)}
      (hstep : plan.steps[cursor.step]? = some step)
      (hchosen : selections plan step.stepId result = .ok chosen)
      (h : maxRetainedBytes < retainedBytes (cursor.advanced step.stepId chosen shown).selections) :
      CompletionRefused plan cursor result shown .invalid
  | shownShape (h : shownValid shown = false) : CompletionRefused plan cursor result shown .invalid
  | tooLarge {step : Step} {chosen : List (Selector × Value)}
      (h : maxCursorBytes < encodedBytes (cursor.advanced step.stepId chosen shown).document) :
      CompletionRefused plan cursor result shown .tooLarge

theorem selectionsValid_iff {entries retained}
    (hkeys : ∀ entry ∈ entries, keyValid entry.1 = true) (hnodup : (entries.map Prod.fst).Nodup) :
    selectionsValid entries retained = true ↔ retainedBytes (OrderedMap.ofEntries keyParts entries) ≤ retained := by
  rw [selectionsValid, all_eq_true.mpr hkeys, decide_eq_true hnodup, Bool.true_and, Bool.true_and, decide_eq_true_iff]

theorem checked_advanced_error {shown refusal}
    (hchecked : checked cursor = .ok cursor) (hstep : plan.steps[cursor.step]? = some step)
    (hlength : plan.steps.length ≤ maxSteps) (hchosen : selections plan step.stepId result = .ok chosen)
    (hkeys : ∀ entry ∈ (cursor.advanced step.stepId chosen shown).selected, keyValid entry.1 = true)
    (hnodup : ((cursor.advanced step.stepId chosen shown).selected.map Prod.fst).Nodup)
    (h : checked (cursor.advanced step.stepId chosen shown) = .error refusal) :
    CompletionRefused plan cursor result shown refusal := by
  obtain ⟨hvalid, -⟩ := guard_eq_ok.mp hchecked
  simp only [Bool.not_eq_true, Bool.not_eq_false', Bool.and_eq_true] at hvalid
  obtain ⟨⟨⟨⟨⟨⟨⟨⟨hbinding, hplan⟩, hstarted⟩, -⟩, -⟩, -⟩, -⟩, -⟩, hboot⟩ := hvalid
  have hindex : cursor.step + 1 ≤ maxSteps := le_trans (List.getElem?_eq_some_iff.mp hstep).1 hlength
  have hattempt : attemptValid (cursor.advanced step.stepId chosen shown) = true := by
    have hcarried : cursor.episode.delivered.carried = false := by
      cases cursor.episode <;> rfl
    simp [attemptValid, Cursor.advanced, hcarried, faults]
  by_cases hbound :
      retainedBytes (cursor.advanced step.stepId chosen shown).selections ≤ maxRetainedBytes
  · by_cases hshown : shownValid shown = true
    · rw [checked, checkedWithin, if_neg] at h
      · by_cases hsize :
            maxCursorBytes < encodedBytes (cursor.advanced step.stepId chosen shown).document
        · rw [if_pos hsize] at h
          cases h
          exact .tooLarge hsize
        · rw [if_neg hsize] at h
          cases h
      · have hselections := (selectionsValid_iff hkeys hnodup).mpr hbound
        simp only [Bool.not_eq_true, Bool.not_eq_false', Bool.and_eq_true]
        exact ⟨⟨⟨⟨⟨⟨⟨⟨hbinding, hplan⟩, hstarted⟩, decide_eq_true hindex⟩, rfl⟩, hselections⟩,
          hattempt⟩, hshown⟩, hboot⟩
    · rw [checked, checkedWithin, if_pos] at h
      · cases h
        exact .shownShape (by simpa using hshown)
      · simp [Cursor.advanced, hshown]
  · rw [checked, checkedWithin, if_pos] at h
    · cases h
      exact .retained hstep hchosen (not_le.mp hbound)
    · have hselections := mt (selectionsValid_iff hkeys hnodup).mp hbound
      simp [hselections]

theorem complete_error {shown refusal} (hadmitted : StepsAdmitted plan.steps) (hlength : plan.steps.length ≤ maxSteps)
    (hreadable : ∀ source ∈ plan.sources, Readable source) (hkept : KeysKept plan cursor)
    (hchecked : checked cursor = .ok cursor) (h : complete cursor plan result shown = .error refusal) :
    CompletionRefused plan cursor result shown refusal := by
  rcases bind_eq_error.mp h with h | ⟨-, -, h⟩
  · rw [samePlan, hkept.digest] at h
    simp at h
  · split_ifs at h with hdispatched
    · cases h
      exact .notDispatched (by simpa using hdispatched)
    cases hstep : plan.steps[cursor.step]? with
    | none =>
      rw [hstep] at h
      cases h
      -- past the last step there is nothing left to complete
      refine .notDispatched (.inl (beq_iff_eq.mpr (le_antisymm hkept.step ?_)))
      exact getElem?_eq_none_iff.mp hstep
    | some step =>
      simp only [hstep] at h
      cases hchosen : selections plan step.stepId result with
      | error failed =>
        rw [hchosen] at h
        cases h
        obtain ⟨selector, hselector, hfailed⟩ := exists_of_mapM_error hchosen
        obtain ⟨source, hsource, hkind, -, rfl⟩ := mem_references.mp hselector
        have hformed := (reference_formed hadmitted hreadable hsource hkind).2
        exact .selection hstep hselector (selected_error hformed (map_eq_error.mp hfailed))
      | ok chosen =>
        rw [hchosen] at h
        simp only [Except.mapError, ok_bind] at h
        split_ifs at h with hshown
        · cases h
          exact .shownMismatch hstep (by simpa using hshown)
        have hkeys := keys_advanced hkept.keys hstep hchosen shown
        have hids : (plan.steps.map Step.stepId).Nodup := stepIds_nodup hadmitted
        have hvalid : ∀ step ∈ plan.steps.take (cursor.step + 1),
            routineStepIdRe step.stepId = true := by
          intro found hfound
          obtain ⟨before, after, hsplit⟩ := append_of_mem (mem_of_mem_take hfound)
          exact (hadmitted before found after hsplit).id
        refine checked_advanced_error hchecked hstep hlength hchosen ?_ ?_ h
        · intro entry hentry
          have hmem := mem_map_of_mem (f := Prod.fst) hentry
          rw [hkeys] at hmem
          exact keyValid_of_mem hadmitted hreadable hvalid hmem
        · rw [hkeys]
          refine nodup_keysOf (hids.sublist ?_)
          exact (take_sublist _ _).map _

/-- A run of an admitted plan never misses a reference. It retains exactly the keys that a source of the
plan applies to a completed step, each once. Resolving its current step fails for no selection, and
completing it fails for one only when the result lacks what is selected, when several items match, or
when the retained bound is exceeded. A source is assumed to be as the strict reader decodes it. -/
theorem replay_references_held [SchemaEngine] {document : Value} {contracts : Contracts}
    (hplan : admitPlan document contracts = .ok plan)
    (hreadable : ∀ source ∈ plan.sources, Readable source) {binding : Binding} {startedAt : Int}
    {boot : String} {first : Cursor} (hstart : startCursor plan binding startedAt boot = .ok first)
    (transitions : List CursorTransition) :
    let cursor := cursorAfter plan first transitions
    (∀ key, key ∈ cursor.selected.map Prod.fst ↔
      ∃ source ∈ plan.sources, isStepOutput source = true ∧ selector source = key ∧
        ∃ step ∈ plan.steps.take cursor.step, step.stepId = key.1) ∧
      (cursor.selected.map Prod.fst).Nodup ∧
      (∀ step validate refusal, plan.steps[cursor.step]? = some step →
        resolve plan step cursor.selections cursor.startedAt validate = .error refusal →
        refusal ∈ [PlanError.timezoneInvalid, .inputInvalid, .inputTooLarge, .inputType]) ∧
      (∀ result shown refusal, complete cursor plan result shown = .error refusal →
        CompletionRefused plan cursor result shown refusal) := by
  intro cursor
  obtain ⟨hadmitted, hlength⟩ := admitPlan_ok hplan
  have hkept : KeysKept plan cursor := keysKept_after hstart transitions
  refine ⟨?_, ?_, ?_, ?_⟩
  · intro key
    rw [hkept.keys]
    exact mem_keysOf hadmitted hreadable
  · rw [hkept.keys]
    exact nodup_keysOf ((stepIds_nodup hadmitted).sublist ((take_sublist _ _).map _))
  · intro step validate refusal hstep hrefused
    refine resolve_error (fun input hinput hliteral hclock => get_selections ?_) hrefused
    rw [hkept.keys]
    obtain ⟨before, after, hsplit⟩ := append_of_mem (mem_of_getElem? hstep)
    have hcheck := (hadmitted before step after hsplit).sources input hinput
    exact current_key_mem hadmitted hreadable hstep hinput
      (isStepOutput_of_checkSource hcheck hliteral hclock)
  · intro result shown refusal hrefused
    exact complete_error hadmitted hlength hreadable hkept (checked_after hstart transitions) hrefused

end

section

variable [Platform]

theorem decoded_fieldOf (h : Decoded value) (key) : Decoded (fieldOf value key) := by
  rw [fieldOf]
  cases hget : value.get key with
  | none => exact .null
  | some found =>
    cases h with
    | object hunique hmembers =>
      obtain ⟨member, hmember, rfl⟩ := Option.map_eq_some_iff.mp hget
      exact hmembers member (mem_of_find?_eq_some hmember)
    | null | bool | int | bigInt | float | string | array => cases hget

theorem decoded_of_mem_members (h : Decoded value) {member} (hmember : member ∈ members value) : Decoded member.2 := by
  cases h with
  | object hunique hmembers => exact hmembers member hmember
  | null | bool | int | bigInt | float | string | array => cases hmember

theorem decoded_of_array {items} (h : Decoded value)
    (hitems : array value = some items) : ∀ item ∈ items, Decoded item := by
  cases h with
  | array hall =>
    cases hitems
    exact hall
  | null | bool | int | bigInt | float | string | object => cases hitems

variable [SchemaEngine] {contracts : Contracts}

theorem admittedSteps_inputs {raws all} (h : admittedSteps contracts steps raws = .ok all) (hstep : step ∈ all) :
    step ∈ steps ∨ ∃ raw ∈ raws, step.inputs = members (fieldOf raw "input") := by
  induction raws generalizing steps with
  | nil =>
    cases h
    exact .inl hstep
  | cons raw rest ih =>
    obtain ⟨added, hadded, h⟩ := bind_eq_ok.mp h
    rcases ih h with hmem | ⟨found, hfound, hinputs⟩
    · rcases mem_append.mp hmem with hmem | hmem
      · exact .inl hmem
      · obtain rfl := mem_singleton.mp hmem
        exact .inr ⟨raw, mem_cons_self, (admittedStep_parts hadded).2.1⟩
    · exact .inr ⟨found, mem_cons_of_mem raw hfound, hinputs⟩

theorem readable_of_admitPlan {plan} (hdecoded : Decoded document)
    (h : admitPlan document contracts = .ok plan) : ∀ source ∈ plan.sources, Readable source := by
  obtain ⟨parts, hparts, h⟩ := bind_eq_ok.mp h
  obtain ⟨steps, hsteps, h⟩ := bind_eq_ok.mp h
  obtain ⟨done, -, h⟩ := bind_eq_ok.mp h
  cases h
  intro source hsource
  obtain ⟨step, hstep, hsource⟩ := mem_flatMap.mp hsource
  obtain ⟨input, hinput, rfl⟩ := mem_map.mp hsource
  rcases admittedSteps_inputs hsteps hstep with hnil | ⟨raw, hraw, hinputs⟩
  · cases hnil
  · have harray := (documentParts_ok hparts).1
    have hrawDecoded := decoded_of_array (decoded_fieldOf hdecoded "steps") harray raw hraw
    rw [hinputs] at hinput
    exact readable_of_decoded (decoded_of_mem_members (decoded_fieldOf hrawDecoded "input") hinput)

end

attribute [local instance] constantHashPlatform

@[reducible]
def openEngine : SchemaEngine where
  Budget := Unit
  budget := ()
  patternMatches := fun _ _ budget => some (false, budget)
  validatePayload := fun _ _ => true

attribute [local instance] openEngine

def sampleContracts : Contracts := fun assistant action =>
  if assistant == "a" && action == "a" then
    some { pin := zeroPin
           inputSchema := objectOf [("properties", objectOf [("x", objectOf [])])]
           inputFiles := []
           outputSchema := .null
           readOnly := true
           storedInputs := [] }
  else none

/-- A selection of the item named `n` in the first step's result. -/
def sampleReference : Value :=
  objectOf [("kind", text "step_output"), ("step", text "a"), ("pointer", text "/z"),
    ("where", objectOf [("n", text "n")]), ("item", text "/i")]

def referringPlan : Value :=
  objectOf [("version", int 4), ("timezone", text "UTC"),
    ("steps", .array [sampleStep,
      objectOf [("id", text "b"), ("assistant", text "a"), ("action", text "a"), ("pin", text zeroPin),
        ("input", objectOf [("x", sampleReference)])]]),
    ("output", objectOf [("mode", text "none"), ("step", .null)])]

theorem referringPlan_decoded : Decoded referringPlan := by
  have hname : Decoded (objectOf [("n", text "n")]) := .object (by decide) (forall_mem_singleton.mpr (.string _))
  have hreference : Decoded sampleReference := by
    refine .object (by decide) ?_
    simp only [forall_mem_cons]
    exact ⟨.string _, .string _, .string _, hname, .string _, forall_mem_nil _⟩
  have hstep : ∀ id input, Decoded input → Decoded (objectOf [("id", text id), ("assistant", text "a"),
      ("action", text "a"), ("pin", text zeroPin), ("input", input)]) := by
    intro id input hinput
    have hunique : ["id", "assistant", "action", "pin", "input"].Nodup := by decide
    refine .object hunique ?_
    simp only [forall_mem_cons]
    exact ⟨.string _, .string _, .string _, .string _, hinput, forall_mem_nil _⟩
  have hempty : Decoded (objectOf []) := .object nodup_nil (forall_mem_nil _)
  have hinput : Decoded (objectOf [("x", sampleReference)]) := .object (by decide) (forall_mem_singleton.mpr hreference)
  have houtput : Decoded (objectOf [("mode", text "none"), ("step", .null)]) := by
    refine .object (by decide) ?_
    simp only [forall_mem_cons]
    exact ⟨.string _, .null, forall_mem_nil _⟩
  refine .object (by decide) ?_
  simp only [forall_mem_cons]
  refine ⟨.int (by decide), .string _, .array ?_, houtput, forall_mem_nil _⟩
  simp only [forall_mem_cons]
  exact ⟨hstep _ _ hempty, hstep _ _ hinput, forall_mem_nil _⟩

theorem replay_references_held_referring : ∃ plan first,
    admitPlan referringPlan sampleContracts = .ok plan ∧
      startCursor plan sampleBinding 5 (drawnId 3) = .ok first ∧
      ∀ transitions, ((cursorAfter plan first transitions).selected.map Prod.fst).Nodup := by
  have hstarts : ((admitPlan referringPlan sampleContracts).toOption.any fun plan =>
      (startCursor plan sampleBinding 5 (drawnId 3)).isOk) = true := by decide +kernel
  cases hplan : admitPlan referringPlan sampleContracts with
  | error refusal =>
    rw [hplan] at hstarts
    cases hstarts
  | ok plan =>
    rw [hplan] at hstarts
    obtain ⟨first, hstart⟩ := exists_ok hstarts
    have hreadable := readable_of_admitPlan referringPlan_decoded hplan
    exact ⟨plan, first, rfl, hstart, fun transitions =>
      (replay_references_held hplan hreadable hstart transitions).2.1⟩

end ShimpzTeams.Routines
