import ShimpzTeams.Library.Answering
import ShimpzTeams.Library.Refusal
import ShimpzTeams.Protocol.Value

/-!
# A person's answers to an Action's requests

An answer is admitted against its reviewed request, in order and within the budgets of
the Action and of the turn. A Stored Input answer is sealed instead and stays out of the
transcript.
-/

namespace ShimpzTeams.Actions

open StrictJson Protocol Library List

def maxRequestsPerAction : Nat := 8

def maxRequestsPerTurn : Nat := 16

/-- The kinds that authorize an Action rather than supply a value. -/
def authorizationKinds : List String := ["approval", "auth:password", "auth:totp", "auth:passkey"]

def authorizes (kind : String) : Bool := authorizationKinds.contains kind

structure HumanRequestError where
  message : String

/-- One admitted request, its canonical bytes with its fingerprint. -/
structure HumanRequest where
  kind : String
  ordinal : Nat
  fingerprint : String
  canonical : List UInt8
  storedInput : Option String

structure HumanResponse where
  kind : String
  ordinal : Nat
  fingerprint : String
  value : Value

/-- The memory-only replay responses of one Brain Action interrupt. -/
structure ActionTranscript where
  interruptId : String
  responses : List HumanResponse

/-- One admitted response and the turn's request budget after it; the Stored Input id and value to seal. -/
structure Admission where
  transcripts : List ActionTranscript
  requestsUsed : Nat
  storedInput : Option (String × String)

def optionValues (request : Value) : Option (List String) :=
  ((request.get "options").bind array).map fun options =>
    options.filterMap fun option => (option.get "value").bind string

def optional (request : Value) : Bool := request.get "required" == some (.bool false)

/-- Whether a request of a kind admits a value. -/
def admitted (request : Value) (kind : String) (value : Value) : Bool :=
  if authorizes kind then value == .bool true
  else if kind == "input:select" || kind == "input:choice" then
    (string value).any fun choice => (optionValues request).any fun allowed =>
      allowed.contains choice || (choice.isEmpty && optional request)
  else if kind == "input:choices" then
    ((array value).bind fun items => items.mapM string).any fun chosen => (optionValues request).any fun allowed =>
      (chosen.zipIdx.all fun entry => !(chosen.take entry.2).contains entry.1) &&
        (((request.get "min_selections").bind smallInt).any fun minimum => minimum ≤ chosen.length) &&
        (((request.get "max_selections").bind smallInt).any fun maximum => chosen.length ≤ maximum) &&
        chosen.all allowed.contains
  else
    (string value).any fun text =>
      (optional request || !text.isEmpty) &&
        (((request.get "min_length").bind smallInt).any fun minimum => minimum ≤ text.length) &&
        ((request.get "max_length").bind smallInt).any fun maximum => text.length ≤ maximum

/-- Refuses a request that is not the next ordinal or exceeds the Action budget. -/
def ActionTranscript.requireNext (transcript : ActionTranscript) (request : HumanRequest) :
    Except HumanRequestError Unit :=
  if maxRequestsPerAction ≤ transcript.responses.length || request.ordinal != transcript.responses.length then
    .error ⟨"Assistant Action human request sequence is invalid"⟩
  else .ok ()

/-- Whether the transcript holds the response to the one authorization the Action declares. -/
def ActionTranscript.authorized (transcript : ActionTranscript) (humanRequests : List String) : Bool :=
  match humanRequests.filter authorizes with
  | [kind] => transcript.responses.any fun response => response.kind == kind
  | _ => false

section

variable [Platform]

def HumanRequest.payload (request : HumanRequest) : Value :=
  match (String.fromUTF8? ⟨request.canonical.toArray⟩).map parse with
  | some (.ok value) => value
  | _ => .null

def admitResponse (request : HumanRequest) (value : Value) : Except HumanRequestError HumanResponse :=
  if !admitted request.payload request.kind value then
    .error ⟨"human response does not match its reviewed request"⟩
  else .ok ⟨request.kind, request.ordinal, request.fingerprint, value⟩

/-- The transcript with the next exact response; an Action authorizes at most once. -/
def ActionTranscript.append (transcript : ActionTranscript) (request : HumanRequest) (value : Value) :
    Except HumanRequestError ActionTranscript :=
  if request.storedInput.isSome then .error ⟨"Assistant Action Stored Input is answered by injection"⟩
  else do
    transcript.requireNext request
    if authorizes request.kind && transcript.responses.any fun response => authorizes response.kind then
      .error ⟨"Assistant Action requested authorization more than once"⟩
    else do
      let response ← admitResponse request value
      .ok { transcript with responses := transcript.responses ++ [response] }

/-- Admits one response within the Team-wide turn budget. -/
def appendResponse (transcripts : List ActionTranscript) (interruptId : String) (request : HumanRequest)
    (value : Value) (requestsUsed : Nat) : Except HumanRequestError Admission :=
  if maxRequestsPerTurn ≤ requestsUsed then .error ⟨"Team turn exceeded its human request limit"⟩
  else
    let matching := transcripts.filter fun transcript => transcript.interruptId == interruptId
    if 1 < matching.length then .error ⟨"Action human transcript is ambiguous"⟩
    else
      let current := matching.head?.getD ⟨interruptId, []⟩
      match request.storedInput with
      | some storedInput => do
          current.requireNext request
          let response ← admitResponse request value
          match response.value with
          | .string secret => .ok ⟨transcripts, requestsUsed + 1, some (storedInput, secret)⟩
          | _ => .error ⟨"human response does not match its reviewed request"⟩
      | none => do
          let updated ← current.append request value
          .ok ⟨(transcripts.filter fun transcript => transcript.interruptId != interruptId) ++ [updated],
            requestsUsed + 1, none⟩

end

/-- One transcript: its ordinals count up within the Action budget, and an authorization is given once, as true. -/
structure ActionTranscript.Sound (transcript : ActionTranscript) : Prop where
  ordinals : transcript.responses.map HumanResponse.ordinal = List.range transcript.responses.length
  few : transcript.responses.length ≤ maxRequestsPerAction
  once : (transcript.responses.countP fun response => authorizes response.kind) ≤ 1
  approved : ∀ response ∈ transcript.responses, authorizes response.kind = true → response.value = .bool true

variable {transcript : ActionTranscript}

theorem ActionTranscript.Sound.authorized_iff (h : transcript.Sound) (humanRequests : List String) :
    transcript.authorized humanRequests = true ↔ ∃ kind, humanRequests.filter authorizes = [kind] ∧
      ∃ response ∈ transcript.responses, response.kind = kind ∧ response.value = .bool true := by
  unfold ActionTranscript.authorized
  constructor
  · intro hany
    split at hany
    · next kind hkind =>
      obtain ⟨response, hresponse, heq⟩ := any_eq_true.mp hany
      obtain rfl := beq_iff_eq.mp heq
      have hdeclared : response.kind ∈ humanRequests.filter authorizes := by rw [hkind]; exact mem_cons_self
      exact ⟨response.kind, hkind, response, hresponse, rfl,
        h.approved response hresponse (mem_filter.mp hdeclared).2⟩
    · cases hany
  · rintro ⟨kind, hkind, response, hresponse, rfl, -⟩
    rw [hkind]
    exact any_eq_true.mpr ⟨response, hresponse, beq_self_eq_true _⟩

variable {value : Value}

theorem Value.eq_of_beq_bool {flag} (h : (value == .bool flag) = true) : value = .bool flag := by
  change value.eq (.bool flag) = true at h
  cases value with
  | bool other => exact congrArg Value.bool (beq_iff_eq.mp h)
  | _ => simp [Value.eq] at h

variable [Platform]

variable {request : HumanRequest} {next : ActionTranscript}

theorem ActionTranscript.interruptId_append (h : transcript.append request value = .ok next) :
    next.interruptId = transcript.interruptId := by
  obtain ⟨-, h⟩ := guard_eq_ok.mp h
  obtain ⟨_, -, h⟩ := bind_eq_ok.mp h
  obtain ⟨-, h⟩ := guard_eq_ok.mp h
  obtain ⟨response, -, h⟩ := bind_eq_ok.mp h
  cases h
  rfl

theorem ActionTranscript.Sound.append (hsound : transcript.Sound)
    (h : transcript.append request value = .ok next) : next.Sound := by
  obtain ⟨-, h⟩ := guard_eq_ok.mp h
  obtain ⟨_, hnext, h⟩ := bind_eq_ok.mp h
  obtain ⟨honce, h⟩ := guard_eq_ok.mp h
  obtain ⟨response, hresponse, h⟩ := bind_eq_ok.mp h
  obtain ⟨hadmitted, hresponse⟩ := guard_eq_ok.mp hresponse
  cases hresponse
  cases h
  obtain ⟨hplace, -⟩ := guard_eq_ok.mp hnext
  simp only [Bool.or_eq_true, decide_eq_true_eq, bne_iff_ne, not_or, not_le, not_not] at hplace
  obtain ⟨hfew, hordinal⟩ := hplace
  refine ⟨?_, ?_, ?_, ?_⟩
  · rw [map_append, hsound.ordinals, length_append, map_singleton, hordinal]
    exact range_succ.symm
  · rw [length_append]
    exact hfew
  · rw [countP_append, countP_singleton]
    dsimp only
    split
    · next hkind =>
      -- a second authorization was refused, so none came before
      have hnone : (transcript.responses.countP fun response => authorizes response.kind) = 0 :=
        countP_eq_zero.mpr fun earlier hearlier hauthorizes => honce <|
          Bool.and_eq_true_iff.mpr ⟨hkind, any_eq_true.mpr ⟨earlier, hearlier, hauthorizes⟩⟩
      omega
    · exact hsound.once
  · refine forall_mem_append.mpr ⟨hsound.approved, forall_mem_singleton.mpr fun hkind => ?_⟩
    simp only [admitted, if_pos hkind, Bool.not_eq_true', Bool.not_eq_false] at hadmitted
    exact Value.eq_of_beq_bool hadmitted

/-- What a person sends: the interrupt it answers, the request it was shown and the value. -/
structure HumanAnswer where
  interruptId : String
  request : HumanRequest
  value : Value

/-- A turn's transcripts and the requests it has used. -/
structure HumanTurn where
  transcripts : List ActionTranscript
  requestsUsed : Nat

/-- One answer to a turn; a refused one changes nothing. -/
def HumanTurn.answer (turn : HumanTurn) (answer : HumanAnswer) : HumanTurn × Except HumanRequestError Admission :=
  match appendResponse turn.transcripts answer.interruptId answer.request answer.value turn.requestsUsed with
  | .ok admission => (⟨admission.transcripts, admission.requestsUsed⟩, .ok admission)
  | .error refusal => (turn, .error refusal)

def HumanTurn.admissions (turn : HumanTurn) : List HumanAnswer → Nat
  | [] => 0
  | answer :: rest =>
    (if (turn.answer answer).2.isOk then 1 else 0) + (turn.answer answer).1.admissions rest

/-- What an answer can do to the turn: nothing, use a request, or replace its own interrupt's transcript too. -/
inductive HumanTurn.Answered (turn : HumanTurn) (answer : HumanAnswer) :
    HumanTurn × Except HumanRequestError Admission → Prop
  | refused (refusal : HumanRequestError) : Answered turn answer (turn, .error refusal)
  | sealed (admission : Admission) (hroom : turn.requestsUsed < maxRequestsPerTurn) :
      Answered turn answer (⟨turn.transcripts, turn.requestsUsed + 1⟩, .ok admission)
  | appended (admission : Admission) (current updated : ActionTranscript)
      (hroom : turn.requestsUsed < maxRequestsPerTurn) (hplain : answer.request.storedInput = none)
      (hcurrent : current ∈ turn.transcripts ∨ current.responses = [])
      (hid : updated.interruptId = answer.interruptId)
      (happend : current.append answer.request answer.value = .ok updated) :
      Answered turn answer (⟨(turn.transcripts.filter fun transcript =>
        transcript.interruptId != answer.interruptId) ++ [updated], turn.requestsUsed + 1⟩, .ok admission)

theorem HumanTurn.answered (turn : HumanTurn) (answer) : turn.Answered answer (turn.answer answer) := by
  unfold HumanTurn.answer
  split
  · next admission h =>
    obtain ⟨hroom, h⟩ := guard_eq_ok.mp h
    obtain ⟨-, h⟩ := guard_eq_ok.mp h
    rw [not_le] at hroom
    split at h
    · obtain ⟨_, -, h⟩ := bind_eq_ok.mp h
      obtain ⟨response, -, h⟩ := bind_eq_ok.mp h
      split at h
      · cases h
        exact .sealed _ hroom
      · cases h
    · next hplain =>
      obtain ⟨updated, happend, h⟩ := bind_eq_ok.mp h
      cases h
      have hid := ActionTranscript.interruptId_append happend
      cases hfirst : (turn.transcripts.filter fun transcript =>
          transcript.interruptId == answer.interruptId).head? with
      | none =>
        rw [hfirst] at happend hid
        exact .appended _ _ updated hroom hplain (.inr rfl) hid happend
      | some first =>
        rw [hfirst] at happend hid
        have hmem := mem_filter.mp (mem_of_head? hfirst)
        exact .appended _ _ updated hroom hplain (.inl hmem.1) (hid.trans (beq_iff_eq.mp hmem.2)) happend
  · exact .refused _

/-- A turn within its budget, with one sound transcript for each interrupt. -/
structure HumanTurn.Sound (turn : HumanTurn) : Prop where
  within : turn.requestsUsed ≤ maxRequestsPerTurn
  distinct : (turn.transcripts.map ActionTranscript.interruptId).Nodup
  transcripts : ∀ transcript ∈ turn.transcripts, transcript.Sound

theorem HumanTurn.Sound.answer {turn : HumanTurn} (h : turn.Sound) (answer) : (turn.answer answer).1.Sound := by
  have hanswered := turn.answered answer
  generalize turn.answer answer = next at hanswered
  cases hanswered with
  | refused refusal => exact h
  | sealed admission hroom => exact ⟨hroom, h.distinct, h.transcripts⟩
  | appended admission current updated hroom _ hcurrent hid happend =>
    have hsound : current.Sound := by
      rcases hcurrent with hmem | hempty
      · exact h.transcripts current hmem
      · constructor <;> simp [hempty]
    refine ⟨hroom, ?_, forall_mem_append.mpr ⟨fun transcript hmem =>
      h.transcripts transcript (mem_filter.mp hmem).1, forall_mem_singleton.mpr (hsound.append happend)⟩⟩
    rw [map_append, map_singleton, hid, ← concat_eq_append]
    refine List.Nodup.concat (fun hmem => ?_) (h.distinct.sublist (filter_sublist.map _))
    obtain ⟨transcript, hother, heq⟩ := mem_map.mp hmem
    exact bne_iff_ne.mp (mem_filter.mp hother).2 heq

/-- Each admission uses one request of the turn. -/
theorem HumanTurn.used_after (turn : HumanTurn) (answers) :
    (Answering.after HumanTurn.answer turn answers).requestsUsed = turn.requestsUsed + turn.admissions answers := by
  induction answers generalizing turn with
  | nil => rfl
  | cons answer rest ih =>
    have hanswered := turn.answered answer
    rw [HumanTurn.admissions, Answering.after, foldl_cons, ← Answering.after, ih]
    generalize turn.answer answer = next at hanswered
    cases hanswered <;> simp [Except.isOk, Except.toBool, Nat.add_assoc]

end ShimpzTeams.Actions
