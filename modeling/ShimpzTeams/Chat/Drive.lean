import ShimpzTeams.Chat.Orchestrator
import ShimpzTeams.Library.Window
import ShimpzTeams.Routines.Sample

/-!
# Logical turns act only on what they admitted

Each piece of the loop is shown to make only allowed exchanges, from what it may
assume of the view it starts in. What a saved checkpoint holds of the turn's
past is kept by every exchange, so a segment may be cut off anywhere: every moment
of a logical turn is permitted by what came before it.
-/

namespace ShimpzTeams.Chat

open StrictJson Protocol Library List

section

variable {continuation saved : ChatContinuation} {view other : View} {seen : List String}
  {batch : List ActionRequest} {turn : RuntimeTurn} {standing : Standing} {round : Nat}

section

variable (strategy : Strategy) (declared : String → String → Option RuntimeAction)

def fileActionsOf (turn : RuntimeTurn) : List ActionRequest := turn.actions.filter (takesFile declared)

/-- What a continuation says of the turn's past: the rounds delivered, their interrupts, and the
file-taking Actions, those of its own suspension being invoked only within the budget. -/
structure Remembers (view : View) (continuation : ChatContinuation) : Prop where
  rounds : continuation.roundIndex = view.deliveredBatches.length
  limit : continuation.roundIndex ≤ strategy.maxRounds
  seen : ∀ batch ∈ view.deliveredBatches, ∀ request ∈ batch,
    request.interruptId ∈ continuation.seenInterrupts
  budget : continuation.fileActions ≤ maxFileActionsPerTurn
  files : ∃ earlier : List String, earlier.length = continuation.fileActions ∧
    ∀ request ∈ view.invoked, takesFile declared request.toActionRequest = true →
      request.interruptId ∈ earlier ∨
        (continuation.turn.status = .actionRequired ∧
          continuation.fileActions + (fileActionsOf declared continuation.turn).length ≤ maxFileActionsPerTurn ∧
          request.interruptId ∈ (fileActionsOf declared continuation.turn).map ActionRequest.interruptId)

/-- A view whose saved checkpoint remembers the turn's past; while nothing is saved, nothing ran. -/
structure Coherent (view : View) : Prop where
  unsaved : view.saved = none → view.deliveredBatches = [] ∧ view.invoked = []
  saved : ∀ continuation, view.saved = some continuation → Remembers strategy declared view continuation

variable {strategy declared} {view other : View}

/-- Coherence is of the saved checkpoint, the delivered batches and the invocations alone. -/
theorem Coherent.congr (h : Coherent strategy declared view) (hsaved : other.saved = view.saved)
    (hdelivered : other.deliveredBatches = view.deliveredBatches) (hinvoked : other.invoked = view.invoked) :
    Coherent strategy declared other where
  unsaved hnone := by
    rw [hdelivered, hinvoked]
    exact h.unsaved (hsaved ▸ hnone)
  saved continuation hcontinuation := by
    obtain ⟨hrounds, hlimit, hseen, hbudget, hfiles⟩ := h.saved continuation (hsaved ▸ hcontinuation)
    exact ⟨hdelivered ▸ hrounds, hlimit, hdelivered ▸ hseen, hbudget, hinvoked ▸ hfiles⟩

/-- A view that a continuation resumes: what it says of the saved checkpoint is true, and it remembers
at least as many interrupts. -/
structure Resumes (view : View) (continuation saved : ChatContinuation) : Prop where
  checkpointed : view.saved = some saved
  turn : continuation.turn = saved.turn
  round : continuation.roundIndex = saved.roundIndex
  files : continuation.fileActions = saved.fileActions
  seen : saved.seenInterrupts ⊆ continuation.seenInterrupts

theorem Resumes.congr (h : Resumes view continuation saved) (hsaved : other.saved = view.saved) :
    Resumes other continuation saved :=
  ⟨hsaved.trans h.checkpointed, h.turn, h.round, h.files, h.seen⟩

end

section

variable [Platform] (strategy : Strategy) (declared : String → String → Option RuntimeAction) {α β : Type}

def Obeys (view : View) (exchange : Exchange Answer) : Prop :=
  view.Allows strategy exchange ∧ Coherent strategy declared (view.exchanged exchange)

/-- From a coherent view every exchange of a part obeys the rules, and its value is as promised of the
coherent view it ends in. -/
def Safe (promise : View → α → Prop) (view : View) (part : Loop α) : Prop :=
  Coherent strategy declared view → Dialogue.Keeps View.exchanged (Obeys strategy declared)
    (fun view result => Coherent strategy declared view ∧ ∀ value, result = .ok value → promise view value)
    view part

variable {strategy declared} {promise weaker : View → α → Prop} {final : View → β → Prop} {view : View}
  {question : Question}

variable {part : Loop α}

theorem Safe.assuming (h : Coherent strategy declared view → Safe strategy declared promise view part) :
    Safe strategy declared promise view part :=
  fun hcoherent => h hcoherent hcoherent

theorem Safe.mono (hpart : Safe strategy declared promise view part)
    (hweaker : ∀ view value, promise view value → weaker view value) : Safe strategy declared weaker view part := by
  intro hcoherent
  refine Dialogue.Keeps.mono (hpart hcoherent) ?_
  rintro other result ⟨hother, hvalue⟩
  exact ⟨hother, fun value hresult => hweaker other value (hvalue value hresult)⟩

variable {following : α → Loop β}

theorem Safe.bind (hpart : Safe strategy declared promise view part)
    (hnext : ∀ view value, promise view value → Safe strategy declared final view (following value)) :
    Safe strategy declared final view (part >>= following) := by
  intro hcoherent
  refine Dialogue.Keeps.bind (hpart hcoherent) ?_ ?_
  · rintro other value ⟨hother, hvalue⟩
    exact hnext other value (hvalue value rfl) hother
  · rintro other refusal ⟨hother, -⟩
    exact ⟨hother, fun _ hvalue => nomatch hvalue⟩

theorem Safe.done {value} (h : promise view value) : Safe strategy declared promise view (.done (.ok value)) := by
  intro hcoherent
  refine ⟨hcoherent, ?_⟩
  rintro _ ⟨rfl⟩
  exact h

theorem Safe.refusing {refusal} : Safe strategy declared promise view (Dialogue.refusing refusal) :=
  fun hcoherent => ⟨hcoherent, fun _ hvalue => nomatch hvalue⟩

/-- A question whose exchange leaves what coherence is about. -/
def Question.steady : Question → Bool
  | .invoke _ | .checkpoint _ _ => false
  | _ => true

omit [Platform] in
theorem Coherent.exchanged (h : Coherent strategy declared view) (hsteady : question.steady = true) (answer) :
    Coherent strategy declared (view.exchanged ⟨question, answer⟩) := by
  cases question with
  | invoke | checkpoint => cases hsteady
  | validateContext | validateAction | prepare | start | resume =>
    cases answer <;> exact h.congr rfl rfl rfl
  | _ => exact h.congr rfl rfl rfl

theorem Safe.exchange {next} (hsteady : question.steady = true)
    (hallowed : ∀ answer, view.Allows strategy ⟨question, answer⟩)
    (hnext : ∀ answer, Safe strategy declared final (view.exchanged ⟨question, answer⟩) (next answer)) :
    Safe strategy declared final view (.ask question next) := by
  intro hcoherent answer
  have hexchanged := hcoherent.exchanged hsteady answer
  exact ⟨⟨hallowed answer, hexchanged⟩, hnext answer hexchanged⟩

theorem Safe.returning {result} (hnext : ∀ value, result = .ok value → Safe strategy declared final view (following value)) :
    Safe strategy declared final view (Dialogue.returning result >>= following) := by
  cases result with
  | ok value => exact hnext value rfl
  | error refusal => exact Safe.refusing

theorem Safe.checkStop {following} (hnext : Safe strategy declared final view.quiet (following ())) :
    Safe strategy declared final view (Chat.checkStop >>= following) := by
  refine Safe.exchange rfl (fun _ => trivial) ?_
  intro answer
  cases answer with
  | true => exact Safe.refusing
  | false => exact hnext

theorem Safe.validateContext {following} (hnext : Safe strategy declared final view.valid (following ())) :
    Safe strategy declared final view (Chat.validateContext >>= following) := by
  refine Safe.exchange rfl (fun _ => trivial) ?_
  intro answer
  cases answer with
  | ok value => exact hnext
  | error refusal => exact Safe.refusing

theorem Safe.stoppedUnless {result}
    (hnext : ∀ value, result = .ok value → Safe strategy declared final view (following value)) :
    Safe strategy declared final view (Chat.stoppedUnless result >>= following) := by
  cases result with
  | ok value => exact hnext value rfl
  | error refusal => exact Safe.exchange rfl (fun _ => trivial) fun _ => Safe.refusing

theorem Safe.checkpoint {undelivered saved next} (hallowed : CheckpointAllowed view saved undelivered)
    (hcoherent : Coherent strategy declared view → Coherent strategy declared (view.saving saved undelivered))
    (hsaved : Safe strategy declared final (view.saving saved undelivered) (next (.ok ())))
    (hrefused : ∀ refusal, Safe strategy declared final view.quiet (next (.error refusal))) :
    Safe strategy declared final view (.ask (.checkpoint saved undelivered) next) := by
  intro hstart answer
  cases answer with
  | ok value => exact ⟨⟨hallowed, hcoherent hstart⟩, hsaved (hcoherent hstart)⟩
  | error refusal =>
    have hquiet : Coherent strategy declared view.quiet := hstart.congr rfl rfl rfl
    exact ⟨⟨hallowed, hquiet⟩, hrefused refusal hquiet⟩

end

variable {requests actions : List ActionRequest} {request : ActionRequest}

structure Extends (view other : View) : Prop where
  same : other = { view with validated := other.validated, validInputs := other.validInputs }
  inputs : view.validInputs ⊆ other.validInputs

theorem Extends.refl : Extends view view := ⟨by cases view; exact Eq.refl _, List.Subset.refl _⟩

theorem Extends.trans {first second third} (h : Extends first second) (hnext : Extends second third) :
    Extends first third := by
  refine ⟨?_, List.Subset.trans h.inputs hnext.inputs⟩
  rw [hnext.same, h.same]

theorem RequestChecked.mono {context}
    (h : RequestChecked view context request) (hinputs : view.validInputs ⊆ other.validInputs) :
    RequestChecked other context request := by
  obtain ⟨action, hdeclared, hvalid, hrest⟩ := h
  exact ⟨action, hdeclared, hinputs hvalid, hrest⟩

theorem admittedActions_id {context action assistantId actionId}
    (h : admittedActions context assistantId actionId = some action) : action.id = actionId := by
  obtain ⟨entry, hentry, rfl⟩ := Option.map_eq_some_iff.mp h
  have hfound := find?_some hentry
  rw [Bool.and_eq_true, beq_iff_eq, beq_iff_eq] at hfound
  exact hfound.2

theorem namesSelected_iff {action input selected} :
    namesSelected action input selected = true ↔ ∀ name, action.inputFiles.head? = some name →
      ∃ fileId, input.get name = some (.string fileId) ∧ fileId ∈ selected := by
  rw [namesSelected]
  cases hname : action.inputFiles.head? with
  | none => simp
  | some name =>
    simp only [Option.some.injEq, forall_eq']
    split
    next fileId hfile => simp [hfile]
    next hother =>
      simp only [Bool.false_eq_true, false_iff, not_exists, not_and]
      intro fileId hfile
      exact absurd hfile (hother fileId)

theorem declaredBatchFrom_ok {declared contracts} (h : declaredBatchFrom declared seen requests = .ok contracts) :
    contracts.map Prod.fst = requests ∧
      (∀ contract ∈ contracts, declared contract.1.assistantId contract.1.action = some contract.2) ∧
      (requests.map ActionRequest.interruptId).Nodup ∧ ∀ request ∈ requests, request.interruptId ∉ seen := by
  induction requests generalizing seen contracts with
  | nil =>
    cases h
    simp
  | cons request rest ih =>
    rw [declaredBatchFrom] at h
    cases hdeclared : declared request.assistantId request.action with
    | none =>
      rw [hdeclared] at h
      cases h
    | some action =>
      simp only [hdeclared, contains_iff_mem] at h
      split at h
      · cases h
      next hunseen =>
        obtain ⟨later, hlater, h⟩ := bind_eq_ok.mp h
        cases h
        obtain ⟨hrequests, hcontracts, hdistinct, hfresh⟩ := ih hlater
        refine ⟨by rw [map_cons, hrequests], ?_, ?_, ?_⟩
        · rw [forall_mem_cons]
          exact ⟨hdeclared, hcontracts⟩
        · rw [map_cons, nodup_cons]
          refine ⟨?_, hdistinct⟩
          intro hrepeated
          obtain ⟨other, hother, hsame⟩ := mem_map.mp hrepeated
          exact hfresh other hother (hsame ▸ mem_cons_self)
        · rw [forall_mem_cons]
          refine ⟨hunseen, ?_⟩
          intro other hother hseen
          exact hfresh other hother (mem_cons_of_mem _ hseen)

theorem executorRequests_interrupts (context batch) :
    (executorRequests context batch).map (fun request => request.interruptId) =
      batch.map ActionRequest.interruptId := by
  rw [executorRequests, map_map]
  rfl

theorem interrupts_of_keys (h : batch.map ActionRequest.key = actions.map ActionRequest.key) :
    batch.map ActionRequest.interruptId = actions.map ActionRequest.interruptId := by
  have hfirst := congrArg (List.map Prod.fst) h
  rwa [map_map, map_map] at hfirst

variable {fileActions : Nat}

section

variable [Platform] {strategy : Strategy} {view : View} {context : RuntimeContext}

theorem Safe.validatedRequests {contracts declared} (hcontracts : ∀ contract ∈ contracts,
      admittedActions context contract.1.assistantId contract.1.action = some contract.2) :
    Safe strategy declared (fun other batch => Extends view other ∧
      batch.map ActionRequest.key = contracts.map (fun contract => contract.1.key) ∧
      ∀ request ∈ batch, RequestChecked other context request) view
      (validatedRequests (selectedIds context) contracts) := by
  induction contracts generalizing view with
  | nil =>
    refine Safe.done ⟨Extends.refl, Eq.refl _, ?_⟩
    intro request hrequest
    cases hrequest
  | cons contract rest ih =>
    obtain ⟨request, action⟩ := contract
    rw [forall_mem_cons] at hcontracts
    obtain ⟨hdeclared, hrest⟩ := hcontracts
    have hid : action.id = request.action := admittedActions_id hdeclared
    refine Safe.exchange rfl (fun _ => trivial) ?_
    intro answer
    cases answer with
    | error refusal => exact Safe.refusing
    | ok input =>
      have hvalid : Extends view (view.admitting request.assistantId action input) := ⟨Eq.refl _, subset_cons_self _ _⟩
      change Safe strategy declared _ (view.admitting _ _ _) (if _ then _ else _)
      split
      · exact Safe.refusing
      next hobject =>
        split
        · exact Safe.refusing
        next hselected =>
          rw [Bool.not_eq_true', Bool.not_eq_false] at hobject hselected
          refine Safe.bind (ih hrest) ?_
          rintro other batch ⟨hextends, hkeys, hchecked⟩
          refine Safe.done ⟨hvalid.trans hextends, ?_, ?_⟩
          · rw [map_cons, map_cons, hkeys]
            simp only [ActionRequest.key, hid]
          · rw [forall_mem_cons]
            refine ⟨⟨action, ?_, hextends.inputs mem_cons_self, hobject, ?_⟩, hchecked⟩
            · rw [hid]
              exact hdeclared
            · exact namesSelected_iff.mp hselected

/-- A batch as a round admits it: the suspension's own requests, each checked, new to the turn and
within its budget. -/
structure AdmittedBatch (view : View) (context : RuntimeContext) (turn : RuntimeTurn) (seen : List String)
    (fileActions : Nat) (batch : List ActionRequest) (total : Nat) : Prop where
  keys : batch.map ActionRequest.key = turn.actions.map ActionRequest.key
  nonempty : turn.actions ≠ []
  fits : turn.actions.length ≤ resumeCapacity context maxResultBytes
  distinct : (turn.actions.map ActionRequest.interruptId).Nodup
  requests : ∀ request ∈ batch, RequestChecked view context request
  unseen : ∀ request ∈ batch, request.interruptId ∉ seen
  count : total = fileActions + (batch.filter (takesFile (admittedActions context))).length
  budget : total ≤ maxFileActionsPerTurn

theorem Safe.admitBatch {declared} : Safe strategy declared (fun other admitted => Extends view other ∧
      AdmittedBatch other context turn seen fileActions admitted.1 admitted.2) view
      (admitBatch turn context seen fileActions) := by
  have hvalidated : Safe strategy declared (fun other batch => Extends view other ∧
      batch.map ActionRequest.key = turn.actions.map ActionRequest.key ∧ turn.actions ≠ [] ∧
      turn.actions.length ≤ resumeCapacity context maxResultBytes ∧
      (turn.actions.map ActionRequest.interruptId).Nodup ∧
      ∀ request ∈ batch, RequestChecked other context request) view
      (validateBatch turn.actions (admittedActions context) (resumeCapacity context maxResultBytes)
        (selectedIds context)) := by
    refine Safe.returning ?_
    intro contracts hcontracts
    rw [declaredBatch] at hcontracts
    split at hcontracts
    · cases hcontracts
    next hnonempty =>
      split at hcontracts
      · cases hcontracts
      next hfits =>
        obtain ⟨hrequests, hdeclared, hdistinct, -⟩ := declaredBatchFrom_ok hcontracts
        refine Safe.mono (Safe.validatedRequests hdeclared) ?_
        rintro other batch ⟨hextends, hkeys, hchecked⟩
        refine ⟨hextends, ?_, by simpa using hnonempty, by omega, hdistinct, hchecked⟩
        rw [hkeys, ← hrequests, map_map]
        rfl
  refine Safe.bind hvalidated ?_
  rintro other batch ⟨hextends, hkeys, hnonempty, hfits, hdistinct, hchecked⟩
  change Safe strategy declared _ other (if _ then _ else if _ then _ else _)
  split
  · exact Safe.refusing
  next hunseen =>
    split
    · exact Safe.refusing
    next hbudget =>
      refine Safe.done ⟨hextends, hkeys, hnonempty, hfits, hdistinct, hchecked, ?_, Eq.refl _, by omega⟩
      intro request hrequest hseen
      refine hunseen (any_eq_true.mpr ⟨request, hrequest, ?_⟩)
      exact contains_iff_mem.mpr hseen

/-- A round's view once its batch is prepared: the batch is of the saved suspension and was checked as
a whole. -/
structure Prepared (view : View) (context : RuntimeContext) (saved : ChatContinuation)
    (batch : List ActionRequest) (total : Nat) : Prop where
  checkpointed : view.saved = some saved
  prepared : view.prepared = executorRequests context batch
  running : view.context = some context
  unbrowsed : view.browsed = false
  checked : Checked view context view.prepared
  keys : batch.map ActionRequest.key = saved.turn.actions.map ActionRequest.key
  count : total = saved.fileActions + (batch.filter (takesFile (admittedActions context))).length
  budget : total ≤ maxFileActionsPerTurn

/-- An admitted batch is checked as a whole once it is prepared, where every delivered interrupt was
seen. -/
theorem AdmittedBatch.checked {total} (h : AdmittedBatch view context turn seen fileActions batch total)
    (hinputs : other.validInputs = view.validInputs)
    (hseen : ∀ earlier ∈ other.deliveredBatches, ∀ request ∈ earlier, request.interruptId ∈ seen) :
    Checked other context (executorRequests context batch) := by
  have hlength : batch.length = turn.actions.length := by
    simpa using congrArg List.length h.keys
  have hmember : ∀ request ∈ executorRequests context batch, request.toActionRequest ∈ batch := by
    intro request hrequest
    obtain ⟨original, horiginal, rfl⟩ := mem_map.mp hrequest
    exact horiginal
  refine ⟨?_, ?_, ?_, ?_, ?_⟩
  · intro hempty
    have hzero := congrArg List.length hempty
    rw [executorRequests, length_map, hlength] at hzero
    exact h.nonempty (length_eq_zero_iff.mp hzero)
  · rw [executorRequests, length_map, hlength]
    exact h.fits
  · rw [executorRequests_interrupts, interrupts_of_keys h.keys]
    exact h.distinct
  · intro request hrequest earlier hearlier delivered hdelivered hsame
    refine h.unseen request.toActionRequest (hmember request hrequest) ?_
    rw [hsame]
    exact hseen earlier hearlier delivered hdelivered
  · intro request hrequest
    refine (h.requests _ (hmember request hrequest)).mono ?_
    rw [hinputs]
    exact List.Subset.refl _

theorem Safe.admitRound {checkpoint declared} (hresumes : Resumes view checkpoint saved)
    (hseen : checkpoint.seenInterrupts ⊆ seen) (hcontext : view.context = some context)
    (hunbrowsed : view.browsed = false) : Safe strategy declared (fun other admitted => other.saved = some saved ∧
      (admitted.2.2 = false → Prepared other context saved admitted.1 admitted.2.1)) view
      (admitRound context checkpoint seen) := by
  refine Safe.validateContext (Safe.bind Safe.admitBatch ?_)
  rintro other ⟨batch, total⟩ ⟨hextends, hadmitted⟩
  refine Safe.exchange rfl (fun _ => trivial) ?_
  intro pausing
  obtain refusal | pause := pausing
  · exact Safe.refusing
  have hsaved : other.saved = some saved := by
    rw [hextends.same]
    exact hresumes.checkpointed
  cases pause with
  | true =>
    refine Safe.done ⟨hsaved, ?_⟩
    intro hfalse
    cases hfalse
  | false =>
    refine Safe.exchange rfl (fun _ => trivial) ?_
    intro answer
    cases answer with
    | error failure => exact Safe.refusing
    | ok value =>
      refine Safe.assuming fun hcoherent => Safe.done ⟨hsaved, ?_⟩
      intro _
      have hremembers := hcoherent.saved saved hsaved
      exact
        { checkpointed := hsaved
          prepared := rfl
          running := by
            rw [hextends.same]
            exact hcontext
          unbrowsed := by
            rw [hextends.same]
            exact hunbrowsed
          checked := hadmitted.checked rfl fun earlier hearlier request hrequest =>
            hseen (hresumes.seen (hremembers.seen earlier hearlier request hrequest))
          keys := hresumes.turn ▸ hadmitted.keys
          count := hresumes.files ▸ hadmitted.count
          budget := hadmitted.budget }

end

section

variable {strategy : Strategy}

theorem fileKeys_of_keys (declared) (h : batch.map ActionRequest.key = actions.map ActionRequest.key) :
    (batch.filter (takesFile declared)).map ActionRequest.key =
      (actions.filter (takesFile declared)).map ActionRequest.key := by
  have hfilter (requests : List ActionRequest) :
      (requests.filter (takesFile declared)).map ActionRequest.key =
        (requests.map ActionRequest.key).filter fun key =>
          (declared key.2.1 key.2.2).any fun action => !action.inputFiles.isEmpty := by
    rw [filter_map]
    rfl
  rw [hfilter, hfilter, h]

/-- The file-taking Actions a turn ran are within its budget. -/
theorem Remembers.fileInterrupts_le {declared} (h : Remembers strategy declared view continuation) :
    (fileInterrupts declared view.invoked).length ≤ maxFileActionsPerTurn := by
  obtain ⟨earlier, hlength, hinvoked⟩ := h.files
  have hmem : ∀ interrupt ∈ fileInterrupts declared view.invoked, ∃ request ∈ view.invoked,
      takesFile declared request.toActionRequest = true ∧ request.interruptId = interrupt := by
    intro interrupt hinterrupt
    obtain ⟨request, hrequest, rfl⟩ := mem_map.mp (mem_dedup.mp hinterrupt)
    obtain ⟨hmember, htakes⟩ := mem_filter.mp hrequest
    exact ⟨request, hmember, htakes, rfl⟩
  have hnodup : (fileInterrupts declared view.invoked).Nodup := nodup_dedup _
  by_cases hbudget : continuation.fileActions + (fileActionsOf declared continuation.turn).length ≤
      maxFileActionsPerTurn
  · have hsubset : fileInterrupts declared view.invoked ⊆
        earlier ++ (fileActionsOf declared continuation.turn).map ActionRequest.interruptId := by
      intro interrupt hinterrupt
      obtain ⟨request, hmember, htakes, rfl⟩ := hmem interrupt hinterrupt
      rw [mem_append]
      exact (hinvoked request hmember htakes).imp id fun hright => hright.2.2
    refine (subperm_of_subset hnodup hsubset).length_le.trans ?_
    rw [length_append, length_map, hlength]
    exact hbudget
  · have hsubset : fileInterrupts declared view.invoked ⊆ earlier := by
      intro interrupt hinterrupt
      obtain ⟨request, hmember, htakes, rfl⟩ := hmem interrupt hinterrupt
      exact (hinvoked request hmember htakes).resolve_right fun hright => hbudget hright.2.1
    refine (subperm_of_subset hnodup hsubset).length_le.trans ?_
    rw [hlength]
    exact h.budget

theorem Remembers.invoke {declared total} (h : Remembers strategy declared view saved)
    (hkeys : batch.map ActionRequest.key = saved.turn.actions.map ActionRequest.key)
    (hcount : total = saved.fileActions + (batch.filter (takesFile declared)).length)
    (hbudget : total ≤ maxFileActionsPerTurn) (hstatus : saved.turn.status = .actionRequired)
    {request} (hrequest : request.toActionRequest ∈ batch) :
    Remembers strategy declared (view.invoking request) saved := by
  have hfiles := fileKeys_of_keys declared hkeys
  have hlength : (batch.filter (takesFile declared)).length = (fileActionsOf declared saved.turn).length := by
    simpa [fileActionsOf] using congrArg List.length hfiles
  obtain ⟨earlier, hearlier, hinvoked⟩ := h.files
  refine ⟨h.rounds, h.limit, h.seen, h.budget, earlier, hearlier, ?_⟩
  intro other hother htakes
  rcases mem_cons.mp hother with rfl | hother
  · refine .inr ⟨hstatus, by omega, ?_⟩
    have hinterrupts := interrupts_of_keys hfiles
    rw [fileActionsOf, ← hinterrupts]
    exact mem_map.mpr ⟨other.toActionRequest, mem_filter.mpr ⟨hrequest, htakes⟩, rfl⟩
  · exact hinvoked other hother htakes

end

variable {results : List (String × Value)}

section

variable [Platform] {strategy : Strategy} {view : View} {context : RuntimeContext} {saved : ChatContinuation}
  {batch : List ActionRequest} {total : Nat}

theorem Prepared.congr (h : Prepared view context saved batch total)
    (hother : other = { view with validated := other.validated, invoked := other.invoked, answer := other.answer }) :
    Prepared other context saved batch total := by
  rw [hother]
  obtain ⟨hcheckpointed, hprepared, hrunning, hunbrowsed, hchecked, hkeys, hcount, hbudget⟩ := h
  exact ⟨hcheckpointed, hprepared, hrunning, hunbrowsed,
    ⟨hchecked.nonempty, hchecked.fits, hchecked.distinct, hchecked.fresh, hchecked.requests⟩, hkeys, hcount,
    hbudget⟩

theorem Coherent.invoke (hcoherent : Coherent strategy (admittedActions context) view)
    (hprepared : Prepared view context saved batch total) (hstatus : saved.turn.status = .actionRequired) (request)
    (hrequest : request.toActionRequest ∈ batch) :
    Coherent strategy (admittedActions context) (view.invoking request) where
  unsaved hnone := by
    cases hprepared.checkpointed.symm.trans hnone
  saved continuation hcontinuation := by
    obtain rfl := Option.some.inj (hprepared.checkpointed.symm.trans hcontinuation)
    exact (hcoherent.saved saved hprepared.checkpointed).invoke hprepared.keys hprepared.count
      hprepared.budget hstatus hrequest

theorem Prepared.invokeAllowed (hprepared : Prepared view context saved batch total)
    (hcoherent : Coherent strategy (admittedActions context) view)
    (hstatus : saved.turn.status = .actionRequired) (hround : saved.roundIndex < strategy.maxRounds)
    (hvalidated : view.validated = true) (hrequest : request ∈ batch) :
    InvokeAllowed strategy view (executorRequest request (selectedFiles context.attachments)) where
  validated := hvalidated
  prepared := by
    rw [hprepared.prepared]
    exact mem_map_of_mem hrequest
  checked := by
    have hafter := hcoherent.invoke hprepared hstatus
      (executorRequest request (selectedFiles context.attachments)) hrequest
    exact ⟨context, hprepared.running, hprepared.checked,
      (hafter.saved saved hprepared.checkpointed).fileInterrupts_le⟩
  suspended := by
    refine ⟨saved, hprepared.checkpointed, hstatus, ?_⟩
    rw [hprepared.prepared, executorRequests, map_map]
    exact hprepared.keys
  rounds := by
    rw [← (hcoherent.saved saved hprepared.checkpointed).rounds]
    exact hround
  unbrowsed := hprepared.unbrowsed

/-- What a batch's run leads to: its results by interrupt in order, or the pause of one request. -/
def RanFrom (context : RuntimeContext) (saved checkpoint : ChatContinuation) (batch : List ActionRequest)
    (total : Nat) (interrupts : List String) (view : View) : Ran → Prop
  | .done results _ => Prepared view context saved batch total ∧ results.map Prod.fst = interrupts
  | .human suspension => view.saved = some saved ∧ suspension.continuation = checkpoint

theorem Safe.runRequests (hprepared : Prepared view context saved batch total)
    (hstatus : saved.turn.status = .actionRequired) (hround : saved.roundIndex < strategy.maxRounds) (checkpoint)
    (hrequests : requests ⊆ batch) (results invoked) :
    Safe strategy (admittedActions context) (RanFrom context saved checkpoint batch total
        (results.map Prod.fst ++ requests.map ActionRequest.interruptId)) view
      (runRequests strategy (selectedFiles context.attachments) checkpoint results invoked requests) := by
  induction requests generalizing view results invoked with
  | nil =>
    refine Safe.done ⟨hprepared, ?_⟩
    rw [map_nil, append_nil]
  | cons request rest ih =>
    obtain ⟨hrequest, hrest⟩ := cons_subset.mp hrequests
    have hvalidated : Prepared view.valid context saved batch total := hprepared.congr rfl
    refine Safe.checkStop (Safe.validateContext ?_)
    intro hstart answer
    have hafter := hstart.invoke hvalidated hstatus
      (executorRequest request (selectedFiles context.attachments)) hrequest
    refine ⟨⟨hvalidated.invokeAllowed hstart hstatus hround rfl hrequest, hafter⟩, ?_⟩
    refine Safe.stoppedUnless ?_ hafter
    intro outcome houtcome
    refine Safe.checkStop ?_
    cases outcome with
    | humanRequest human => exact Safe.done ⟨hprepared.checkpointed, rfl⟩
    | completed result =>
      rw [map_cons, append_cons]
      have hran : Prepared (view.invoking (executorRequest request (selectedFiles context.attachments)))
        context saved batch total := hprepared.congr rfl
      have hnext := ih hran hrest (results ++ [(request.interruptId, result)])
      rw [map_append] at hnext
      exact hnext _

theorem Prepared.batch_nonempty (h : Prepared view context saved batch total) : batch ≠ [] := by
  rintro rfl
  exact h.checked.nonempty h.prepared

theorem Coherent.deliver {next} (hcoherent : Coherent strategy (admittedActions context) view)
    (hprepared : Prepared view context saved batch total) (hround : saved.roundIndex < strategy.maxRounds)
    (hnext : next.roundIndex = saved.roundIndex + 1)
    (hfiles : next.fileActions = total) (hseen : saved.seenInterrupts ⊆ next.seenInterrupts)
    (hbatch : ∀ request ∈ batch, request.interruptId ∈ next.seenInterrupts) :
    Coherent strategy (admittedActions context) (view.saving next batch) where
  unsaved hnone := by cases hnone
  saved continuation hcontinuation := by
    cases hcontinuation
    obtain ⟨hrounds, hlimit, hearlier, hbudget, earlier, hlength, hinvoked⟩ :=
      hcoherent.saved saved hprepared.checkpointed
    have hdelivered : (view.saving next batch).deliveredBatches = batch :: view.deliveredBatches :=
      if_neg (by simpa using hprepared.batch_nonempty)
    have hkeys := fileKeys_of_keys (admittedActions context) hprepared.keys
    have hcount : (batch.filter (takesFile (admittedActions context))).length =
        (fileActionsOf (admittedActions context) saved.turn).length := by
      simpa [fileActionsOf] using congrArg List.length hkeys
    refine ⟨?_, by omega, ?_, hfiles ▸ hprepared.budget,
      earlier ++ (fileActionsOf (admittedActions context) saved.turn).map ActionRequest.interruptId, ?_, ?_⟩
    · rw [hdelivered, length_cons, hnext, hrounds]
    · rw [hdelivered, forall_mem_cons]
      refine ⟨hbatch, ?_⟩
      intro older holder request hrequest
      exact hseen (hearlier older holder request hrequest)
    · have htotal := hprepared.count
      rw [length_append, length_map, hlength]
      omega
    · intro request hrequest htakes
      rw [mem_append]
      exact .inl ((hinvoked request hrequest htakes).imp id fun hright => hright.2.2)

theorem Safe.resumeBrain {α} {promise : View → α → Prop} {declared shown next} (hallowed : ResumeAllowed view results)
    (hnext : ∀ turn, Safe strategy declared promise (view.answering turn) (next turn)) :
    Safe strategy declared promise view (Chat.resumeBrain results shown >>= next) := by
  refine Safe.exchange rfl (fun _ => hallowed) ?_
  intro answer
  cases answer with
  | ok turn => exact hnext turn
  | error failure => exact Safe.exchange rfl (fun _ => trivial) fun _ => Safe.refusing

theorem Safe.deliver {declared} (hprepared : Prepared view context saved batch total)
    (hresults : results.map Prod.fst = batch.map ActionRequest.interruptId) (seen) :
    Safe strategy declared (fun other resumed => Prepared other context saved batch total ∧
      other.answer = some resumed.1 ∧ seen ⊆ resumed.2 ∧ ∀ request ∈ batch, request.interruptId ∈ resumed.2)
      view (deliver strategy batch results seen) := by
  have hvalidated : Prepared view.valid context saved batch total := hprepared.congr rfl
  refine Safe.validateContext (Safe.resumeBrain ⟨rfl, .inl ⟨hvalidated.unbrowsed, ?_, context,
    hvalidated.running, hvalidated.checked⟩⟩ ?_)
  · rw [hvalidated.prepared, executorRequests_interrupts, hresults]
  · intro turn
    change Safe strategy _ _ _ (if _ then _ else _)
    split
    · exact Safe.refusing
    next =>
      refine Safe.done ⟨hprepared.congr rfl, rfl, ?_, ?_⟩
      · intro interrupt hinterrupt
        exact (OrderedMap.mem_setOf Function.injective_id).mpr (mem_append_left _ hinterrupt)
      · intro request hrequest
        exact (OrderedMap.mem_setOf Function.injective_id).mpr
          (mem_append_right _ (mem_map_of_mem hrequest))

theorem Safe.acknowledge {next α} {promise : View → α → Prop} (hprepared : Prepared view context saved batch total)
    (hround : saved.roundIndex < strategy.maxRounds) (hnext : next.roundIndex = saved.roundIndex + 1)
    (hfiles : next.fileActions = total) (hseen : saved.seenInterrupts ⊆ next.seenInterrupts)
    (hbatch : ∀ request ∈ batch, request.interruptId ∈ next.seenInterrupts) (hanswer : view.answer = some next.turn)
    {following : Unit → Loop α}
    (hfollowing : Safe strategy (admittedActions context) promise (view.saving next batch) (following ())) :
    Safe strategy (admittedActions context) promise view (acknowledge context batch next >>= following) := by
  have hallowed : CheckpointAllowed view next batch := by
    refine ⟨hanswer, ?_⟩
    intro hbrowsed
    cases hprepared.unbrowsed.symm.trans hbrowsed
  refine Safe.checkpoint hallowed (fun h => h.deliver hprepared hround hnext hfiles hseen hbatch) ?_
    fun _ => Safe.refusing
  refine Safe.exchange rfl (fun _ => ⟨hprepared.batch_nonempty, ⟨context, hprepared.running, rfl⟩,
    ⟨next, rfl, hanswer⟩⟩) ?_
  intro acknowledged
  cases acknowledged with
  | error failure => exact Safe.refusing
  | ok value => exact hfollowing

/-- What a round leads to: a pause at its checkpoint, or the Brain's answer to its delivered batch. -/
def RoundedFrom (context : RuntimeContext) (saved checkpoint : ChatContinuation) (seen : List String)
    (view : View) : Rounded → Prop
  | .paused outcome => view.saved = some saved ∧
      ((∃ requests, outcome = .suspended ⟨checkpoint, requests⟩) ∨
        ∃ suspension, outcome = .human suspension ∧ suspension.continuation = checkpoint)
  | .resumed turn _ fileActions requests later => Prepared view context saved requests fileActions ∧
      view.answer = some turn ∧ seen ⊆ later ∧ ∀ request ∈ requests, request.interruptId ∈ later

theorem Safe.runRound {checkpoint} (hresumes : Resumes view checkpoint saved)
    (hseen : checkpoint.seenInterrupts ⊆ seen) (hcontext : view.context = some context)
    (hunbrowsed : view.browsed = false) (hstatus : saved.turn.status = .actionRequired)
    (hround : saved.roundIndex < strategy.maxRounds) :
    Safe strategy (admittedActions context) (RoundedFrom context saved checkpoint seen) view
      (runRound strategy context checkpoint seen) := by
  refine Safe.bind (Safe.admitRound hresumes hseen hcontext hunbrowsed) ?_
  rintro other ⟨requests, fileActions, pause⟩ ⟨hsaved, hprepared⟩
  cases pause with
  | true => exact Safe.done ⟨hsaved, .inl ⟨requests, rfl⟩⟩
  | false =>
    refine Safe.bind (Safe.runRequests (hprepared rfl) hstatus hround checkpoint (List.Subset.refl _) [] []) ?_
    intro ranView ran hran
    cases ran with
    | human suspension =>
      exact Safe.done ⟨hran.1, .inr ⟨suspension, rfl, hran.2⟩⟩
    | done results invoked =>
      refine Safe.bind (Safe.deliver hran.1 hran.2 seen) ?_
      rintro resumedView ⟨turn, later⟩ hresumed
      exact Safe.done hresumed

end

variable {strategy : Strategy} {declared : String → String → Option RuntimeAction} {view : View}
  {saved next : ChatContinuation}

/-- A turn's first checkpoint: nothing ran yet. -/
theorem Coherent.first (hcoherent : Coherent strategy declared view) (hunsaved : view.saved = none) (turn) :
    Coherent strategy declared (view.saving ⟨turn, [], [], 0, 0⟩ []) where
  unsaved hnone := by cases hnone
  saved continuation hcontinuation := by
    cases hcontinuation
    obtain ⟨hdelivered, hinvoked⟩ := hcoherent.unsaved hunsaved
    refine ⟨?_, Nat.zero_le _, ?_, Nat.zero_le _, [], rfl, ?_⟩
    · change 0 = view.deliveredBatches.length
      rw [hdelivered, length_nil]
    · change ∀ batch ∈ view.deliveredBatches, _
      rw [hdelivered]
      intro batch hbatch
      cases hbatch
    · change ∀ request ∈ view.invoked, _
      rw [hinvoked]
      intro request hrequest
      cases hrequest

theorem Coherent.reply (hcoherent : Coherent strategy declared view) (hsaved : view.saved = some saved)
    (hstatus : saved.turn.status ≠ .actionRequired) (hround : next.roundIndex = saved.roundIndex)
    (hfiles : next.fileActions = saved.fileActions) (hseen : saved.seenInterrupts ⊆ next.seenInterrupts) :
    Coherent strategy declared (view.saving next []) where
  unsaved hnone := by cases hnone
  saved continuation hcontinuation := by
    cases hcontinuation
    obtain ⟨hrounds, hlimit, hearlier, hbudget, earlier, hlength, hinvoked⟩ := hcoherent.saved saved hsaved
    refine ⟨hround.trans hrounds, hround ▸ hlimit, ?_, hfiles ▸ hbudget, earlier, hlength.trans hfiles.symm, ?_⟩
    · intro batch hbatch request hrequest
      exact hseen (hearlier batch hbatch request hrequest)
    · intro request hrequest htakes
      exact .inl ((hinvoked request hrequest htakes).resolve_right fun hright => hstatus hright.1)

variable [Platform] {context : RuntimeContext}

structure OnlyReplies (turn : RuntimeTurn) : Prop where
  status : turn.status = .completed
  memory : turn.memory = []
  routine : turn.routine = none
  clarification : turn.clarification = none

theorem Safe.runBrowser (hsaved : view.saved = some saved) (hturn : turn = saved.turn) :
    Safe strategy declared (fun other resumed => other.saved = some saved ∧
      other.answer = some resumed.1 ∧ OnlyReplies resumed.1) view (runBrowser context turn) := by
  rw [Chat.runBrowser]
  cases hrequest : turn.browser with
  | none => exact Safe.refusing
  | some request =>
    dsimp only
    split
    · exact Safe.refusing
    next =>
      refine Safe.exchange rfl (fun _ => trivial) ?_
      intro offered
      cases offered with
      | false => exact Safe.refusing
      | true =>
        refine Safe.validateContext (Safe.exchange rfl (fun _ => trivial) ?_)
        intro task
        refine Safe.checkStop (Safe.validateContext (Safe.resumeBrain
          ⟨rfl, .inr ⟨rfl, saved, request, task.1, hsaved, hturn ▸ hrequest, rfl⟩⟩ ?_))
        intro resumed
        split
        · exact Safe.refusing
        next hreply =>
          simp only [Bool.or_eq_true, not_or, bne_iff_ne, ne_eq, not_not, Bool.not_eq_true',
            Bool.not_eq_false, List.isEmpty_iff, Option.isSome_iff_ne_none] at hreply
          obtain ⟨⟨⟨hstatus, hmemory⟩, hroutine⟩, hclarification⟩ := hreply
          exact Safe.done ⟨hsaved, rfl, hstatus, hmemory, hroutine, hclarification⟩

theorem Safe.browse (hresumes : Resumes view (standing.at round) saved)
    (hstatus : standing.turn.status = .browserRequired) :
    Safe strategy declared (fun _ browsed => browsed.1.turn.status = .completed) view
      (browse context standing round) := by
  have hturn : standing.turn = saved.turn := hresumes.turn
  have hwaits : saved.turn.status ≠ .actionRequired := by
    rw [← hturn, hstatus]
    decide
  refine Safe.bind (Safe.runBrowser hresumes.checkpointed hturn) ?_
  rintro other ⟨resumed, terminal⟩ ⟨hsaved, hanswer, hreply⟩
  have hallowed : CheckpointAllowed other ({ standing with turn := resumed }.at round) [] := by
    refine ⟨hanswer, ?_⟩
    intro _
    exact ⟨rfl, hreply.status, hreply.memory, hreply.routine, hreply.clarification⟩
  refine Safe.checkpoint hallowed
    (fun hother => hother.reply hsaved hwaits hresumes.round hresumes.files hresumes.seen) ?_
    fun _ => Safe.refusing
  cases standing.turn.browser with
  | none => exact Safe.done hreply.status
  | some request => exact Safe.exchange rfl (fun _ => trivial) fun _ => Safe.done hreply.status

/-- How a segment ends: completed directly after a context validation, or paused where the saved
checkpoint resumes. -/
def EndsWell (view : View) : Outcome → Prop
  | .completed _ => view.validated = true
  | .suspended suspension => ∃ saved, Resumes view suspension.continuation saved
  | .human suspension => ∃ saved, Resumes view suspension.continuation saved

theorem Safe.complete (turn invoked round browser) :
    Safe strategy declared EndsWell view (complete turn invoked round browser) := by
  rw [Chat.complete]
  split
  · exact Safe.refusing
  · exact Safe.validateContext (Safe.done rfl)

/-- Either the Browser ran and the Brain replied, or the turn stands where it stood. -/
theorem Safe.browseFirst (hresumes : Resumes view (standing.at round) saved) (browser) :
    Safe strategy declared (fun other here => here.1.turn.status = .completed ∨
      other = view ∧ here.1 = standing ∧ standing.turn.status ≠ .browserRequired) view
      (browseFirst context standing round browser) := by
  rw [Chat.browseFirst]
  split
  next hstatus =>
    refine Safe.bind (Safe.browse hresumes (beq_iff_eq.mp hstatus)) ?_
    rintro other ⟨moved, terminal⟩ hcompleted
    exact Safe.done (.inl hcompleted)
  next hstatus => exact Safe.done (.inr ⟨rfl, rfl, by simpa using hstatus⟩)

theorem Safe.driveRounds {left browser} (hresumes : Resumes view (standing.at round) saved)
    (hcontext : view.context = some context) (hunbrowsed : view.browsed = false) :
    Safe strategy (admittedActions context) EndsWell view
      (driveRounds strategy context left round standing browser) := by
  induction left generalizing view round standing browser saved with
  | zero => exact Safe.refusing
  | succ left ih =>
    have hstands : Resumes view.quiet (standing.at round) saved := hresumes.congr rfl
    refine Safe.checkStop (Safe.bind (Safe.browseFirst hstands browser) ?_)
    rintro other ⟨here, terminal⟩ hhere
    dsimp only at hhere ⊢
    obtain hcompleted | ⟨rfl, rfl, hstatus⟩ := hhere
    · rw [if_pos (beq_iff_eq.mpr hcompleted)]
      exact Safe.complete _ _ _ _
    split
    · exact Safe.complete _ _ _ _
    next hrunning =>
      have haction : saved.turn.status = .actionRequired := by
        rw [← hresumes.turn]
        cases hthe : here.turn.status <;> simp_all [Standing.at]
      split
      · exact Safe.refusing
      next hlimit =>
        refine Safe.assuming fun hcoherent => ?_
        have hround : saved.roundIndex < strategy.maxRounds := by
          have hmost := (hcoherent.saved saved hresumes.checkpointed).limit
          have hstart : round = saved.roundIndex := hresumes.round
          rw [beq_iff_eq, hstart] at hlimit
          exact lt_of_le_of_ne hmost hlimit
        refine Safe.bind (Safe.runRound hstands (List.Subset.refl _) hcontext hunbrowsed haction hround) ?_
        intro ranView rounded hrounded
        cases rounded with
        | paused outcome =>
          obtain ⟨hsaved, ⟨requests, rfl⟩ | ⟨suspension, rfl, hat⟩⟩ := hrounded
          · exact Safe.done ⟨saved, hstands.congr (hsaved.trans hstands.checkpointed.symm)⟩
          · refine Safe.done ⟨saved, ?_⟩
            rw [hat]
            exact hstands.congr (hsaved.trans hstands.checkpointed.symm)
        | resumed turn ran fileActions requests seen =>
          obtain ⟨hprepared, hanswer, hseen, hbatch⟩ := hrounded
          refine Safe.acknowledge hprepared hround ?_ rfl ?_ hbatch hanswer ?_
          · exact congrArg (· + 1) hresumes.round
          · exact List.Subset.trans hresumes.seen hseen
          · exact ih ⟨rfl, rfl, rfl, rfl, List.Subset.refl _⟩ hprepared.running hprepared.unbrowsed

theorem Safe.drive (hresumes : Resumes view continuation saved) (hcontext : view.context = some context)
    (hunbrowsed : view.browsed = false) : Safe strategy (admittedActions context) EndsWell view
      (drive strategy context continuation) := by
  refine Safe.driveRounds ⟨hresumes.checkpointed, hresumes.turn, hresumes.round, hresumes.files, ?_⟩
    hcontext hunbrowsed
  intro interrupt hinterrupt
  exact (OrderedMap.mem_setOf Function.injective_id).mpr (hresumes.seen hinterrupt)

theorem Safe.runUntilPause (hunsaved : view.saved = none) (hcontext : view.context = some context)
    (hunbrowsed : view.browsed = false) (message conversation) : Safe strategy (admittedActions context) EndsWell view
      (runUntilPause strategy context message conversation) := by
  refine Safe.checkStop (Safe.validateContext (Safe.exchange rfl (fun _ => trivial) ?_))
  intro answer
  cases answer with
  | error failure => exact Safe.exchange rfl (fun _ => trivial) fun _ => Safe.refusing
  | ok turn =>
    have hallowed : CheckpointAllowed (view.answering turn) ⟨turn, [], [], 0, 0⟩ [] := by
      refine ⟨rfl, ?_⟩
      intro hbrowsed
      cases hunbrowsed.symm.trans hbrowsed
    refine Safe.checkpoint hallowed (fun hanswered => hanswered.first hunsaved turn) ?_
      fun _ => Safe.refusing
    exact Safe.drive ⟨rfl, rfl, rfl, rfl, List.Subset.refl _⟩ hcontext hunbrowsed

theorem Safe.continueAfterRestart {undelivered} (hresumes : Resumes view continuation saved) (hcontext : view.context = some context)
    (hunbrowsed : view.browsed = false) (hundelivered : undelivered ≠ [] → view.undelivered ≠ []) :
    Safe strategy (admittedActions context) EndsWell view
      (continueAfterRestart strategy context continuation undelivered) := by
  rw [Chat.continueAfterRestart]
  split
  · exact Safe.drive hresumes hcontext hunbrowsed
  next hpending =>
    refine Safe.exchange rfl (fun _ => hundelivered (by simpa using hpending)) ?_
    intro settled
    cases settled with
    | error failure => exact Safe.refusing
    | ok value => exact Safe.drive (hresumes.congr rfl) hcontext hunbrowsed

end

section

theorem viewOf_append (history later : List Moment) :
    viewOf (history ++ later) = later.foldl View.after (viewOf history) := by
  rw [viewOf, foldl_append]
  rfl

variable [Platform] {strategy : Strategy}

theorem Lawful.nil : Lawful strategy [] := by
  intro before moment later hsplit
  simp at hsplit

theorem Lawful.snoc {history moment} (hlawful : Lawful strategy history)
    (hpermits : (viewOf history).Permits strategy moment) : Lawful strategy (history ++ [moment]) :=
  forall_split_snoc hlawful hpermits

variable {declared : String → String → Option RuntimeAction}

theorem Lawful.exchanges {history exchanges}
    (hlawful : Lawful strategy history) (hcoherent : Coherent strategy declared (viewOf history))
    (halong : Dialogue.Along View.exchanged (Obeys strategy declared) (viewOf history) exchanges) :
    Lawful strategy (history ++ exchanges.map .asked) ∧
      Coherent strategy declared (viewOf (history ++ exchanges.map .asked)) ∧
      viewOf (history ++ exchanges.map .asked) = exchanges.foldl View.exchanged (viewOf history) := by
  induction exchanges generalizing history with
  | nil =>
    rw [map_nil, append_nil]
    exact ⟨hlawful, hcoherent, rfl⟩
  | cons exchange rest ih =>
    obtain ⟨⟨hallowed, hnext⟩, hrest⟩ := halong
    have hview : viewOf (history ++ [.asked exchange]) = (viewOf history).exchanged exchange :=
      viewOf_append history [.asked exchange]
    rw [← hview] at hnext hrest
    rw [map_cons, append_cons, foldl_cons, ← hview]
    exact ih (hlawful.snoc hallowed) hnext hrest

/-- What a history's last moment promises: a pause resumes where the saved checkpoint does. -/
def PausesWell (view : View) : Moment → Prop
  | .ended (.ok (.suspended suspension)) => ∃ saved, Resumes view suspension.continuation saved
  | .ended (.ok (.human suspension)) => ∃ saved, Resumes view suspension.continuation saved
  | _ => True

/-- What a logical turn's history keeps from segment to segment. -/
structure Kept (strategy : Strategy) (declared : String → String → Option RuntimeAction)
    (history : List Moment) : Prop where
  lawful : Lawful strategy history
  coherent : Coherent strategy declared (viewOf history)
  pauses : ∀ moment, history.getLast? = some moment → PausesWell (viewOf history) moment

variable {history : List Moment}

/-- However a segment enters the turn, it obeys the rules from there. -/
theorem Kept.entry {context loop} (hkept : Kept strategy (admittedActions context) history)
    (hentry : Entry strategy context history loop) :
    Safe strategy (admittedActions context) EndsWell (viewOf (history ++ [.begun context])) loop := by
  have hview : viewOf (history ++ [.begun context]) = (viewOf history).after (.begun context) :=
    viewOf_append history [.begun context]
  rw [hview]
  cases hentry with
  | start message conversation hunsaved =>
    refine Safe.runUntilPause ?_ rfl rfl message conversation
    exact hunsaved
  | @restart continuation hsaved =>
    have hresumes : Resumes ((viewOf history).after (.begun context)) continuation continuation :=
      ⟨hsaved, rfl, rfl, rfl, List.Subset.refl _⟩
    exact Safe.continueAfterRestart hresumes rfl rfl id
  | suspension hended | human hended =>
    obtain ⟨saved, hresumes⟩ := hkept.pauses _ hended
    have hbegun : Resumes ((viewOf history).after (.begun context)) _ saved := hresumes.congr rfl
    exact Safe.continueAfterRestart hbegun rfl rfl fun hnone => absurd rfl hnone

theorem Kept.new : Kept strategy declared [] where
  lawful := Lawful.nil
  coherent :=
    { unsaved := fun _ => ⟨rfl, rfl⟩
      saved := by
        intro continuation hsaved
        cases hsaved }
  pauses := by
    intro moment hlast
    cases hlast

/-- A segment's end is permitted and, where it pauses, resumes where the saved checkpoint does. -/
theorem Kept.ended {result} (hlawful : Lawful strategy history)
    (hcoherent : Coherent strategy declared (viewOf history))
    (hends : ∀ outcome, result = .ok outcome → EndsWell (viewOf history) outcome) :
    Kept strategy declared (history ++ [.ended result]) := by
  have hview : viewOf (history ++ [.ended result]) = (viewOf history).quiet := viewOf_append history [.ended result]
  refine ⟨hlawful.snoc ?_, hview ▸ hcoherent.congr rfl rfl rfl, ?_⟩
  · match result, hends with
    | .ok (.completed _), hends => exact hends _ rfl
    | .ok (.suspended _), _ | .ok (.human _), _ | .error _, _ => trivial
  · intro moment hlast
    rw [getLast?_concat] at hlast
    cases hlast
    rw [hview]
    match result, hends with
    | .ok (.completed _), _ | .error _, _ => trivial
    | .ok (.suspended suspension), hends =>
      obtain ⟨saved, hresumes⟩ := hends _ rfl
      exact ⟨saved, hresumes.congr rfl⟩
    | .ok (.human suspension), hends =>
      obtain ⟨saved, hresumes⟩ := hends _ rfl
      exact ⟨saved, hresumes.congr rfl⟩

/-- A segment keeps what the turn's history kept, wherever it is cut off. -/
theorem Kept.segment {context loop exchanges ending} (hkept : Kept strategy (admittedActions context) history)
    (hentry : Entry strategy context history loop) (hrun : loop.Run exchanges ending) :
    Kept strategy (admittedActions context)
      (history ++ .begun context :: exchanges.map .asked ++ (ending.map .ended).toList) := by
  have hbegun : Coherent strategy (admittedActions context) (viewOf (history ++ [.begun context])) := by
    rw [viewOf_append]
    exact hkept.coherent.congr rfl rfl rfl
  obtain ⟨halong, hend⟩ := Dialogue.Keeps.run (hkept.entry hentry hbegun) hrun
  have hstart : Lawful strategy (history ++ [.begun context]) := hkept.lawful.snoc trivial
  obtain ⟨hlawful, hcoherent, hview⟩ := hstart.exchanges hbegun halong
  rw [append_cons]
  cases ending with
  | none =>
    rw [Option.map_none, Option.toList_none, append_nil]
    refine ⟨hlawful, hcoherent, ?_⟩
    -- a segment that was cut off ends in its beginning or in a question
    intro moment hlast
    rw [append_assoc, singleton_append, getLast?_append_cons] at hlast
    obtain rfl | hasked := mem_cons.mp (mem_of_getLast? hlast)
    · trivial
    · obtain ⟨exchange, -, rfl⟩ := mem_map.mp hasked
      trivial
  | some result =>
    refine Kept.ended hlawful hcoherent ?_
    intro outcome houtcome
    rw [hview]
    exact (hend result rfl).2 outcome houtcome

end

attribute [local instance] Routines.constantHashPlatform

def sampleContext : RuntimeContext where
  threadId := "t"
  teamName := "t"
  assistants := [⟨"a", "g", [⟨"b", "s", .object [], false, [], .object []⟩]⟩]
  credential := ⟨"p", "m", "k"⟩
  memories := none
  routines := none
  routineQuestion := none
  routineMode := false
  routineRerun := none
  routineSchedule := none
  routineOutput := none
  routineSettingsAnswer := false
  routineSelected := none
  attachments := []
  browser := true

def sampleStrategy : Strategy where
  shownResults := id

/-- An answer with nothing but what it suspends for. -/
def sampleTurn (status : TurnStatus) (actions : List ActionRequest) (browser : Option BrowserRequest) : RuntimeTurn :=
  ⟨status, "", actions, none, [], none, browser⟩

/-- A Brain that asks for an Action under an interrupt, then for the Browser under the same, then
replies; everything else succeeds. -/
def sampleReply (_ : Nat) : (question : Question) → Answer question
  | .cancelled => false
  | .validateContext => .ok ()
  | .validateAction _ _ input => .ok input
  | .pauseBeforeBatch _ => .ok false
  | .prepare _ => .ok ()
  | .invoke _ => .ok (.completed .null)
  | .delivered _ => .ok ()
  | .settleUndelivered => .ok ()
  | .start _ _ => .ok (sampleTurn .actionRequired [⟨"i", "a", "b", .object []⟩] none)
  | .resume [(_, .null)] _ => .ok (sampleTurn .browserRequired [] (some ⟨"i", "o"⟩))
  | .resume _ _ => .ok (sampleTurn .completed [] none)
  | .offersBrowser _ => true
  | .runBrowser _ => (.bool true, .null)
  | .browserDelivered _ => ()
  | .checkpoint _ _ => .ok ()

def sampleSegment : List (Exchange Answer) × Except ChatError Outcome :=
  Dialogue.play sampleReply 0 (runUntilPause sampleStrategy sampleContext "m" [])

def sampleHistory : List Moment :=
  .begun sampleContext :: sampleSegment.1.map .asked ++ [.ended sampleSegment.2]

theorem sampleHistory_turn : LogicalTurn sampleStrategy (admittedActions sampleContext) sampleHistory :=
  .segment .new rfl (.start "m" [] rfl) (Dialogue.play_run sampleReply 0 _)

def View.redelivers (view : View) : Moment → List String
  | .asked ⟨.resume results _, _⟩ => (results.map Prod.fst).filter fun interrupt =>
    view.deliveredBatches.any fun batch => batch.any fun request => request.interruptId == interrupt
  | _ => []

/-- The same over a whole history from a view on. -/
def View.redelivered : View → List Moment → List String
  | _, [] => []
  | view, moment :: rest => view.redelivers moment ++ (view.after moment).redelivered rest

end ShimpzTeams.Chat
