import ShimpzTeams.Routines.Recorder.Planning
import ShimpzTeams.Routines.References

/-!
# The targets a recorded plan uses, and how a rerun names them

Narrowing drops the read-only calls that sent a target the person declined,
never a changing one. A plan is recorded as soon as one call of the Action sent
the chosen target, so a changing call that sent a declined one stays in it
unless its value has to be asked about again. A rerun classifies an input without
the choice it belongs to, and agrees with the recorder unless the person's words
hold a target of a choice still open.
-/

namespace ShimpzTeams.Routines.Recorder

open StrictJson Protocol Library List

section

variable {binding : Pending} {written : String} {call : Call}

section

variable [Platform]

def Pending.answer (binding : Pending) : Option String :=
  (binding.chosen.map jsonText).filter binding.offers

def ChosenSent (choices : List Pending) (calls : List Call) : Prop :=
  ∀ binding ∈ choices, ∀ written ∈ binding.answer, ∀ call ∈ calls,
    ∀ sent ∈ sentTarget call binding, sent = written

instance (choices : List Pending) (calls : List Call) : Decidable (ChosenSent choices calls) :=
  inferInstanceAs (Decidable (∀ binding ∈ choices, ∀ written ∈ binding.answer, ∀ call ∈ calls,
    ∀ sent ∈ sentTarget call binding, sent = written))

theorem ChosenSent.mono {choices calls fewer}
    (h : ChosenSent choices calls) (hsubset : fewer ⊆ calls) : ChosenSent choices fewer := by
  intro binding hbinding written hwritten call hcall
  exact h binding hbinding written hwritten call (hsubset hcall)

theorem mem_answer (h : written ∈ binding.answer) :
    ∃ chosen, binding.chosen = some chosen ∧ jsonText chosen = written ∧ binding.offers written = true := by
  obtain ⟨hwritten, hoffers⟩ := Option.mem_filter_iff.mp h
  obtain ⟨chosen, hchosen, rfl⟩ := Option.map_eq_some_iff.mp hwritten
  exact ⟨chosen, hchosen, rfl, hoffers⟩

theorem sentTarget_eq_some {sent} : sentTarget call binding = some sent ↔
      call.action = binding.action ∧ sentValue call binding.member = some sent ∧ binding.offers sent = true := by
  by_cases haction : call.action = binding.action
  · simp [sentTarget, haction, Option.filter_eq_some_iff]
  · simp [sentTarget, haction]

variable {binding : Pending} {choices : List Pending} {work : List Call}

/-- The dispatch indexes of the calls that sent another target of a choice. -/
def declined (binding : Pending) (written : String) (work : List Call) : List Nat :=
  (work.filter (declines binding written)).map Call.index

theorem narrowedBy_cases (binding work) : narrowedBy binding work = work ∨ ∃ written,
      (∀ call ∈ work, (declined binding written work).contains call.index = true → call.readOnly = true) ∧
      narrowedBy binding work = work.filter fun call => !(declined binding written work).contains call.index := by
  cases hchosen : binding.chosen with
  | none => exact .inl (by simp only [narrowedBy, hchosen])
  | some chosen =>
    simp only [narrowedBy, hchosen]
    split_ifs with hdrops
    · refine .inr ⟨jsonText chosen, fun call hcall hdeclined => ?_, rfl⟩
      obtain ⟨-, hreads⟩ := Bool.and_eq_true_iff.mp hdrops
      exact all_eq_true.mp hreads call (mem_filter.mpr ⟨hcall, hdeclined⟩)
    · exact .inl rfl

theorem narrowedBy_subset : narrowedBy binding work ⊆ work := by
  rcases narrowedBy_cases binding work with hsame | ⟨written, -, hdrops⟩
  · rw [hsame]
    exact List.Subset.refl work
  · rw [hdrops]
    exact filter_subset_self _

theorem mem_narrowedBy_of_changing (hcall : call ∈ work) (hchanging : call.readOnly = false) :
    call ∈ narrowedBy binding work := by
  rcases narrowedBy_cases binding work with hsame | ⟨written, hreads, hdrops⟩
  · rwa [hsame]
  · rw [hdrops, mem_filter, Bool.not_eq_true']
    refine ⟨hcall, Bool.eq_false_iff.mpr fun hdeclined => ?_⟩
    exact Bool.noConfusion (hchanging.symm.trans (hreads call hcall hdeclined))

theorem narrowed_append (before after) : narrowed (before ++ after) work = narrowed after (narrowed before work) :=
  foldl_append ..

theorem narrowed_subset : narrowed choices work ⊆ work := by
  induction choices generalizing work with
  | nil => exact List.Subset.refl work
  | cons binding rest ih => exact List.Subset.trans ih narrowedBy_subset

theorem mem_narrowed_of_changing (hcall : call ∈ work) (hchanging : call.readOnly = false) :
    call ∈ narrowed choices work := by
  induction choices generalizing work with
  | nil => exact hcall
  | cons binding rest ih => exact ih (mem_narrowedBy_of_changing hcall hchanging)

/-- Once some call sent the chosen target, every read-only call that sent another one drops, unless a
changing call did. -/
theorem narrowedBy_sent (hunique : ∀ left ∈ work, ∀ right ∈ work, left.index = right.index → left = right)
    (hanswer : written ∈ binding.answer)
    (hreads : ∀ call ∈ work, declines binding written call = true → call.readOnly = true)
    (hchose : ∃ call ∈ work, sentTarget call binding = some written) :
    ∀ call ∈ narrowedBy binding work, ∀ sent ∈ sentTarget call binding, sent = written := by
  intro call hcall sent hsent
  obtain ⟨chosen, hchosen, rfl, -⟩ := mem_answer hanswer
  have hothers : ∀ other ∈ work, (declined binding (jsonText chosen) work).contains other.index = true ↔
      declines binding (jsonText chosen) other = true := by
    intro other hother
    rw [contains_iff_mem, declined, mem_map]
    constructor
    · rintro ⟨found, hfound, hindex⟩
      obtain ⟨hmem, hdeclines⟩ := mem_filter.mp hfound
      exact hunique found hmem other hother hindex ▸ hdeclines
    · intro hdeclines
      exact ⟨other, mem_filter.mpr ⟨hother, hdeclines⟩, rfl⟩
  have hdrops : narrowedBy binding work =
      work.filter fun call => !(declined binding (jsonText chosen) work).contains call.index := by
    simp only [narrowedBy, hchosen]
    refine if_pos (Bool.and_eq_true_iff.mpr ⟨?_, ?_⟩)
    · obtain ⟨found, hfound, htarget⟩ := hchose
      exact any_eq_true.mpr ⟨found, hfound, by simp [htarget]⟩
    · refine all_eq_true.mpr fun other hother => ?_
      obtain ⟨hmem, hin⟩ := mem_filter.mp hother
      exact hreads other hmem ((hothers other hmem).mp hin)
  obtain ⟨hmem, hout⟩ := mem_filter.mp (hdrops ▸ hcall)
  by_contra hne
  have hdeclines : declines binding (jsonText chosen) call = true := by
    rw [declines, hsent]
    simpa using hne
  rw [(hothers call hmem).mpr hdeclines] at hout
  cases hout

end

section

def changing (calls : List Call) : List Call := calls.filter fun call => !call.readOnly

theorem mem_changing {calls} : call ∈ changing calls ↔ call ∈ calls ∧ call.readOnly = false := by
  rw [changing, mem_filter, Bool.not_eq_true']

theorem latest_subset (request : Request) : request.latest ⊆ callsOf request.sends :=
  fun _ hcall => (mem_filter.mp hcall).1

variable [Platform] [SpanReader] [SchemaEngine]

def Request.planned (request : Request) : List Call :=
  match closure request.context request.narrowedWork with
  | .ok planned => planned.2.map Prod.snd
  | .error _ => []

omit [SpanReader] [SchemaEngine] in
theorem chosenUsed_sent {context work} (h : chosenUsed context work = true)
    (hbinding : binding ∈ targetChoices context.sends context.asked) (hanswer : written ∈ binding.answer)
    (hcall : call ∈ work) (haction : call.action = binding.action) :
    ∃ found ∈ work, sentTarget found binding = some written := by
  obtain ⟨chosen, hchosen, rfl, hoffers⟩ := mem_answer hanswer
  have hused := all_eq_true.mp h binding hbinding
  simp only [hchosen, Bool.or_eq_true, List.isEmpty_iff, any_eq_true, beq_iff_eq] at hused
  rcases hused with hnone | ⟨found, hfound, hsent⟩
  · have hmem : call ∈ work.filter fun call => call.action == binding.action :=
      mem_filter.mpr ⟨hcall, by simpa using haction⟩
    rw [hnone] at hmem
    cases hmem
  · obtain ⟨hfound, hsame⟩ := mem_filter.mp hfound
    exact ⟨found, hfound, sentTarget_eq_some.mpr ⟨by simpa using hsame, hsent, hoffers⟩⟩

/-- The work a plan is recorded from sends only chosen targets when its changing calls did. -/
theorem RecordedFrom.chosenSent {request mode kept}
    (h : RecordedFrom request mode kept) (hchanging : ChosenSent request.choices (changing request.latest)) :
    ChosenSent request.choices request.narrowedWork := by
  intro binding hbinding written hanswer call hcall sent hsent
  obtain ⟨before, after, hsplit⟩ := append_of_mem hbinding
  -- what is left of the work when this choice narrows it
  have hwork : request.narrowedWork =
      narrowed after (narrowedBy binding (narrowed before request.latest)) := by
    have hsplit : targetChoices request.sends request.asked = before ++ binding :: after := hsplit
    rw [Request.narrowedWork, workOf, hsplit, narrowed_append]
    rfl
  have hleft : narrowed before request.latest ⊆ request.latest := narrowed_subset
  have hkept : request.narrowedWork ⊆ narrowedBy binding (narrowed before request.latest) := by
    rw [hwork]
    exact narrowed_subset
  obtain ⟨found, hfound, hchose⟩ := chosenUsed_sent h.chosenUsed hbinding hanswer hcall
    (sentTarget_eq_some.mp hsent).1
  refine narrowedBy_sent ?_ hanswer ?_ ⟨found, narrowedBy_subset (hkept hfound), hchose⟩ call
    (hkept hcall) sent hsent
  · intro left hmem right hother
    exact eq_of_index_eq (latest_subset request (hleft hmem)) (latest_subset request (hleft hother))
  · intro other hother hdeclines
    cases hread : other.readOnly with
    | true => rfl
    | false =>
      obtain ⟨target, htarget, hne⟩ := (Option.any_eq_true _ _).mp hdeclines
      have hsame := hchanging binding hbinding written hanswer other
        (mem_changing.mpr ⟨hleft hother, hread⟩) target htarget
      exact absurd hsame (by simpa using hne)

/-- The calls a plan's steps stand for are calls of the span. -/
theorem planned_subset (request : Request) : request.planned ⊆ callsOf request.sends := by
  intro call hcall
  unfold Request.planned at hcall
  cases hclosure : closure request.context request.narrowedWork with
  | error stop =>
    rw [hclosure] at hcall
    cases hcall
  | ok planned =>
    rw [hclosure] at hcall
    obtain ⟨entry, hentry, rfl⟩ := mem_map.mp hcall
    have hgathered := gathered_closure hclosure
    exact mem_of_getElem?
      (hgathered.calls entry.1 entry.2 (OrderedMap.get_of_mem hgathered.ascending hentry))

def Request.sourced (request : Request) : List Call :=
  request.planned.filter fun call => some call.send != request.work

end

@[reducible]
def silentReader : SpanReader where
  stated := fun _ => []
  outputs := fun _ => []
  zones := fun _ => []
  numberTokens := fun _ => []
  dates := fun _ _ => some []
  template := fun _ _ _ _ => none

attribute [local instance] constantHashPlatform openEngine silentReader

/-- A value nothing of which is withheld. -/
def shownWhole (value : Value) : Kept := ⟨value, [], false⟩

/-- A listing of two items that no member names. -/
def listing : Occurrence :=
  ⟨"a", "list", zeroPin, true, shownWhole (objectOf []), shownWhole
    (objectOf [("z", .array [objectOf [("i", text "target-1")], objectOf [("i", text "b")]])])⟩

def update (target : String) : Occurrence :=
  ⟨"a", "update", zeroPin, false, shownWhole (objectOf [("x", text target)]), shownWhole (objectOf [])⟩

def choiceContracts : Contracts := fun assistant action =>
  if assistant == "a" then
    some { pin := zeroPin
           inputSchema := objectOf [("properties", objectOf [("x", objectOf [])])]
           inputFiles := []
           outputSchema := .null
           readOnly := action == "list"
           storedInputs := [] }
  else none

/-- A send of some segments that ran some Actions. -/
def sendOf (person : List String) (occurrences : List Occurrence) : Send :=
  ⟨person, [], none, 0, none, occurrences⟩

def updating (targets : List String) : Request where
  sends := [sendOf [] [listing], sendOf [] (targets.map update)]
  protection := ⟨[], false⟩
  contracts := choiceContracts
  work := some 1
  asked := none
  existing := some ⟨objectOf [("output", objectOf [("mode", text "none")])], .null⟩

def askedAfter (after : Nat) : Except RecordingError Recording → Option Asked
  | .ok (.asked question) => some ⟨after, question.pending, question.chosen, question.repairFrom⟩
  | _ => none

/-- The same span after the person answers its question with the first item. -/
def answering (targets : List String) : Request :=
  { updating targets with
    sends := (updating targets).sends ++ [sendOf ["\"target-1\""] []]
    asked := askedAfter 2 (record (updating targets)) }

/-- Whether a recording ended in a plan. -/
def isRecorded : Except RecordingError Recording → Bool
  | .ok (.recorded _) => true
  | _ => false

theorem exists_recorded {result} (h : isRecorded result = true) : ∃ kept, result = .ok (.recorded kept) := by
  match result, h with
  | .ok (.recorded kept), _ => exact ⟨kept, rfl⟩

theorem answered_recorded : ∃ kept, record (answering ["target-1"]) = .ok (.recorded kept) ∧
    (answering ["target-1"]).latest ≠ [] := by
  obtain ⟨kept, hkept⟩ := exists_recorded
    (show isRecorded (record (answering ["target-1"])) = true by decide +kernel)
  exact ⟨kept, hkept, fun hnil => absurd (congrArg List.length hnil) (by decide)⟩

end

variable {context : Context} {chosen : List Pending} {call : Call} {work : List Call} {member : String × Value}

section

variable [Platform]

theorem settled_answered (h : ∀ item ∈ chosen, item.chosen.isSome = true) :
    ∀ item ∈ settled context chosen, item.chosen.isSome = true := by
  refine List.foldlRecOn (motive := fun kept => ∀ item ∈ kept, item.chosen.isSome = true) _
    settledWith (forall_mem_nil _) ?_
  intro kept hkept item hitem other hother
  have hanswered : item.chosen.isSome = true := by
    rcases mem_append.mp hitem with hspan | hnow
    · exact (mem_filter.mp hspan).2
    · exact h item hnow
  unfold settledWith at hother
  split at hother
  · rcases mem_or_eq_of_mem_set hother with hold | rfl
    · exact hkept other hold
    · exact hanswered
  · rcases mem_append.mp hother with hold | hnew
    · exact hkept other hold
    · exact mem_singleton.mp hnew ▸ hanswered

variable [SpanReader]

def classifiedOrigin (context : Context) (call : Call) (member : String × Value) : Origin :=
  originOf context call member.2
    (bindingFor (targetChoices context.sends context.asked) call member.1 member.2)

/-- Whether a run reads a value of this origin anew: its own date, a copy of a result, or a value asked
about. -/
def Origin.anew : Origin → Bool
  | .clock | .sourced | .unsourced => true
  | _ => false

/-- What a rerun must send for a value of each origin: the run date as a date, a value copied or asked
about as a fresh one, and any other exactly. -/
def slotFor (member : String × Value) : Origin → String × String × Value
  | .clock => (member.1, "clock", .null)
  | .sourced | .unsourced => (member.1, "fresh", member.2)
  | _ => (member.1, "value", member.2)

/-- A slot as the recorder's own classification names it: the chosen target of an answered choice that
offers the value, and else what its origin asks for. -/
structure NamedBy (context : Context) (chosen : List Pending) (call : Call) (member : String × Value)
    (slot : String × String × Value) : Prop where
  answered : ∀ choice, bindingFor chosen call member.1 member.2 = some choice →
    ∃ target, choice.chosen = some target ∧ slot = (member.1, "value", target)
  otherwise : bindingFor chosen call member.1 member.2 = none →
    slot = slotFor member (classifiedOrigin context call member)

/-- Whether the choice a value belongs to leaves its naming to the person's words: they named it as the
recorder reads them exactly when their words hold it. -/
def WordsDecide (context : Context) (call : Call) (member : String × Value) : Prop :=
  personNamed context.known
    (bindingFor (targetChoices context.sends context.asked) call member.1 member.2) member.2 =
      context.known.names member.2

instance : Decidable (WordsDecide context call member) :=
  inferInstanceAs (Decidable (_ = _))

theorem slotInput_of_unanswered (h : bindingFor chosen call member.1 member.2 = none) :
    slotInput context call chosen member = slotFor member (originOf context call member.2 none) := by
  simp only [slotInput, h, Option.bind_none]
  cases originOf context call member.2 none <;> rfl

theorem originOf_of_named {pending value} (h : personNamed context.known pending value = true) :
    originOf context call value pending = .request := if_pos h

theorem originOf_congr {left right value}
    (h : personNamed context.known left value = personNamed context.known right value) :
    originOf context call value left = originOf context call value right := by
  unfold originOf
  rw [h]

omit [Platform] [SpanReader] in
/-- A value kept exactly is kept as one the person named. -/
theorem slotFor_request {origin : Origin} : slotFor member .request = slotFor member origin ↔ origin.anew = false := by
  cases origin <;> simp [slotFor, Origin.anew]

/-- One member's slot is the recorder's exactly when an answered choice names it, the words decide, or
it is kept exactly either way. -/
theorem namedBy_slotInput (hchosen : ∀ item ∈ chosen, item.chosen.isSome = true) :
    NamedBy context chosen call member (slotInput context call chosen member) ↔
      (bindingFor chosen call member.1 member.2).isSome = true ∨ WordsDecide context call member ∨
        (classifiedOrigin context call member).anew = false ∧ (originOf context call member.2 none).anew = false := by
  cases hbinding : bindingFor chosen call member.1 member.2 with
  | some choice =>
    obtain ⟨target, htarget⟩ := Option.isSome_iff_exists.mp
      (hchosen choice (mem_of_find?_eq_some hbinding))
    refine iff_of_true ⟨fun other hother => ?_, fun hnone => ?_⟩ (.inl rfl)
    · obtain rfl := Option.some.inj (hbinding.symm.trans hother)
      exact ⟨target, htarget, by simp only [slotInput, hbinding, Option.bind_some, htarget]⟩
    · exact absurd (hbinding.symm.trans hnone) (by simp)
  | none =>
    have hslot : NamedBy context chosen call member (slotInput context call chosen member) ↔
        slotFor member (originOf context call member.2 none) =
          slotFor member (classifiedOrigin context call member) := by
      rw [slotInput_of_unanswered hbinding]
      refine ⟨fun hnamed => hnamed.otherwise hbinding, fun hsame => ⟨?_, fun _ => hsame⟩⟩
      intro choice hchoice
      exact absurd (hbinding.symm.trans hchoice) (by simp)
    rw [hslot]
    by_cases hwords : WordsDecide context call member
    · exact iff_of_true (congrArg _ (originOf_congr hwords.symm)) (.inr (.inl hwords))
    -- where the words do not decide, one of the two takes the value as named
    cases hnames : context.known.names member.2 with
    | true =>
      have hnone : originOf context call member.2 none = .request := originOf_of_named hnames
      rw [hnone, slotFor_request]
      simp [hwords, Origin.anew]
    | false =>
      have hclassified : classifiedOrigin context call member = .request :=
        originOf_of_named (by simpa [WordsDecide, hnames] using hwords)
      rw [hclassified, eq_comm, slotFor_request]
      simp [hwords, Origin.anew]

theorem manifestFrom_eq_ok {seen slots} (h : manifestFrom context chosen seen work = .ok slots) :
    ∃ named : List Call, named.Sublist work ∧ slots = named.map (slotOf context chosen) ∧
      ∀ call ∈ work, context.classOf call.index ∈ seen ∨
        ∃ first ∈ named, context.classOf first.index = context.classOf call.index := by
  induction work generalizing seen slots with
  | nil => exact ⟨[], List.Sublist.slnil, (Except.ok.inj h).symm, fun _ hcall => nomatch hcall⟩
  | cons call rest ih =>
    obtain ⟨-, h⟩ := guard_eq_ok.mp h
    obtain ⟨-, h⟩ := guard_eq_ok.mp h
    split at h
    · rename_i hseen
      obtain ⟨named, hsub, hslots, hcovers⟩ := ih h
      refine ⟨named, hsub.cons call, hslots, forall_mem_cons.mpr ⟨.inl ?_, hcovers⟩⟩
      exact contains_iff_mem.mp hseen
    · obtain ⟨later, hlater, rfl⟩ := map_eq_ok.mp h
      obtain ⟨named, hsub, rfl, hcovers⟩ := ih hlater
      refine ⟨call :: named, hsub.cons_cons call, rfl, forall_mem_cons.mpr ⟨?_, ?_⟩⟩
      · exact .inr ⟨call, mem_cons_self, rfl⟩
      · intro other hother
        rcases hcovers other hother with hseen | ⟨first, hfirst, hclass⟩
        · rcases mem_cons.mp hseen with hsame | hseen
          · exact .inr ⟨call, mem_cons_self, hsame.symm⟩
          · exact .inl hseen
        · exact .inr ⟨first, mem_cons_of_mem _ hfirst, hclass⟩

end

attribute [local instance] constantHashPlatform openEngine silentReader

/-- A span that asked which item is meant and updated one again: the person's words hold it, but are
not its exact answer. -/
def reworking (segment : String) (targets : List String) : Request :=
  { updating ["target-1"] with
    sends := (updating ["target-1"]).sends ++ [sendOf [segment] (targets.map update)]
    work := some 2
    asked := askedAfter 2 (record (updating ["target-1"])) }

def askedInputs : Except RecordingError Recording → Option (List (List (String × String × String)))
  | .ok (.asked kept) => kept.manifest.map fun slots => slots.map fun slot =>
    slot.inputs.map fun input => (input.1, input.2.1, jsonText input.2.2)
  | _ => none

/-- The update of an item whose choice is still open, then of one no result holds. -/
def openRework : Request := reworking "use target-1" ["target-1", "missing-9"]

/-- The same work after the exact answer: the chosen item takes the place of the one sent. -/
def answeredRework : Request := reworking "\"b\"" ["target-1", "missing-9"]

end ShimpzTeams.Routines.Recorder
