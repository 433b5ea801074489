import ShimpzTeams.Routines.Sweeps
import ShimpzTeams.Routines.Discards

/-!
# A run's ledger

What a run may still spend only shrinks, and what it has used, asked and told
only grows, from its claim to its last record. Only its own segment binds it to
a generation, and only a reopening continues it in another.
-/

namespace ShimpzTeams.Routines

open StrictJson Protocol Library List

variable {value later : Run} {seconds : Int} {position first : Nat} {own continuation before : String}

def Call.charges (call : Call) (runId : String) : Int :=
  match call.action with
  | .spend id _ _ elapsed => if id == runId then elapsed.1 else 0
  | .spendIncident id seconds => if id == runId then seconds else 0
  | _ => 0

/-- How a run's record may move over its life. -/
structure Ledger (value later : Run) : Prop where
  routineId : later.routineId = value.routineId
  revision : later.revision = value.revision
  active : max later.activeSecondsLeft 0 ≤ max value.activeSecondsLeft 0
  version : value.noticeVersion ≤ later.noticeVersion
  requests : value.requestsUsed ≤ later.requestsUsed
  usage : duration value.usage ≤ duration later.usage
  protection : value.protectionLost = true → later.protectionLost = true

theorem Ledger.refl (value) : Ledger value value :=
  ⟨rfl, rfl, le_rfl, le_rfl, le_rfl, le_rfl, id⟩

theorem Ledger.trans {middle} (h : Ledger value middle) (h' : Ledger middle later) : Ledger value later where
  routineId := h'.routineId.trans h.routineId
  revision := h'.revision.trans h.revision
  active := h'.active.trans h.active
  version := h.version.trans h'.version
  requests := h.requests.trans h'.requests
  usage := h.usage.trans h'.usage
  protection := fun hlost => h'.protection (h.protection hlost)

/-- The fields of a run's record that its ledger reads. -/
def Run.books (value : Run) : String × Int × Int × Int × Int × Value × Bool :=
  (value.routineId, value.revision, value.activeSecondsLeft, value.noticeVersion,
    value.requestsUsed, value.usage, value.protectionLost)

theorem wrap64_of_fits {value} (hlow : -2 ^ 63 ≤ value) (hhigh : value < 2 ^ 63) : wrap64 value = value := by
  unfold wrap64
  omega

/-- A next version that may be published did not wrap. -/
theorem wrap64_succ {version} (hlow : 0 ≤ version) (hhigh : version < 2 ^ 63)
    (hput : 1 ≤ wrap64 (version + 1)) : wrap64 (version + 1) = version + 1 ∧ version + 1 < 2 ^ 63 := by
  unfold wrap64 at hput ⊢
  omega

theorem fieldOf_set_self {members} (key member) : fieldOf (Protocol.set (.object members) key member) key = member := by
  unfold Protocol.set
  dsimp only
  split
  · rename_i hany
    have hfound : (Protocol.set.setFirst key member members).find? (fun found => found.1 == key) =
        some (key, member) := by
      induction members with
      | nil => cases hany
      | cons found rest ih =>
        unfold Protocol.set.setFirst
        by_cases hkey : found.1 = key
        · simp [hkey]
        · simp only [hkey, beq_iff_eq, if_false]
          rw [find?_cons_of_neg (by simpa using hkey)]
          refine ih ?_
          simpa [hkey] using hany
    simp [fieldOf, Value.get, hfound]
  · rename_i hnone
    have hmissing : members.find? (fun found => found.1 == key) = none := by
      rw [find?_eq_none]
      intro found hmem heq
      exact hnone (any_eq_true.mpr ⟨found, hmem, heq⟩)
    simp [fieldOf, Value.get, find?_append, hmissing]

theorem set_object (members key member) : ∃ updated, Protocol.set (.object members) key member = .object updated := by
  unfold Protocol.set
  dsimp only
  split
  · exact ⟨_, rfl⟩
  · exact ⟨_, rfl⟩

/-- What a run's record keeps to while `spent` seconds were charged to it. -/
structure Accounted (spent : Int) (value : Run) : Prop where
  active : -spent ≤ value.activeSecondsLeft ∧ value.activeSecondsLeft < 2 ^ 63
  version : 0 ≤ value.noticeVersion ∧ value.noticeVersion < 2 ^ 63
  object : ∃ members, value.usage = .object members
  usage : 0 ≤ duration value.usage ∧ duration value.usage ≤ maxUsageMs
  bound : value.status = .held ∨ value.status = .unresolved → value.generation ≠ ""

theorem Accounted.mono {spent more} (h : Accounted spent value) (hmore : spent ≤ more) : Accounted more value := by
  refine ⟨⟨?_, h.active.2⟩, h.version, h.object, h.usage, h.bound⟩
  have hactive := h.active.1
  omega

section

variable {call : Call} {paid : Int} {value updated : Run}

theorem Accounted.rebooked (h : Accounted paid value) (hsame : updated.books = value.books)
    (hbound : updated.status = .held ∨ updated.status = .unresolved → updated.generation ≠ "") :
    Accounted paid updated ∧ Ledger value updated := by
  simp only [Run.books, Prod.mk.injEq] at hsame
  obtain ⟨hroutine, hrevision, hactive, hversion, hrequests, husage, hprotection⟩ := hsame
  constructor
  · exact ⟨hactive ▸ h.active, hversion ▸ h.version, husage ▸ h.object, husage ▸ h.usage, hbound⟩
  · exact ⟨hroutine, hrevision, by rw [hactive], hversion.ge, hrequests.ge, by rw [husage],
      fun hlost => hprotection.trans hlost⟩

/-- A record with its next version's books, told or not. -/
theorem Accounted.republished (h : Accounted paid value)
    (hput : 1 ≤ (versioned value).noticeVersion) (hsame : updated.books = (versioned value).books)
    (hbound : updated.status = .held ∨ updated.status = .unresolved → updated.generation ≠ "") :
    Accounted paid updated ∧ Ledger value updated := by
  obtain ⟨hnext, hfits⟩ := wrap64_succ h.version.1 h.version.2 hput
  have hversion : (versioned value).noticeVersion = value.noticeVersion + 1 := hnext
  have hlow := h.version.1
  have haccounted : Accounted paid (versioned value) := ⟨h.active, ⟨by omega, by omega⟩, h.object, h.usage, h.bound⟩
  have hledger : Ledger value (versioned value) := ⟨rfl, rfl, le_rfl, by omega, le_rfl, le_rfl, id⟩
  obtain ⟨hkept, hmoved⟩ := haccounted.rebooked hsame hbound
  exact ⟨hkept, hledger.trans hmoved⟩

theorem Accounted.spent {milliseconds} (h : Accounted paid value) (hseconds : 0 ≤ seconds)
    (hmilliseconds : 0 ≤ milliseconds) : Accounted (paid + seconds) (spentForm value seconds milliseconds) ∧
      Ledger value (spentForm value seconds milliseconds) := by
  obtain ⟨members, hobject⟩ := h.object
  obtain ⟨hlow, hhigh⟩ := h.active
  obtain ⟨hnonneg, hmost⟩ := h.usage
  have hleft : (spentForm value seconds milliseconds).activeSecondsLeft = value.activeSecondsLeft - seconds := rfl
  have husage : duration (spentForm value seconds milliseconds).usage =
      joinedDuration value.usage milliseconds := by
    simp only [spentForm, duration, hobject, fieldOf_set_self]
    rfl
  have hjoined : joinedDuration value.usage milliseconds =
      min (min (duration value.usage + milliseconds) (2 ^ 63 - 1)) maxUsageMs := rfl
  have hbound : maxUsageMs = 86400000 := rfl
  constructor
  · refine ⟨?_, h.version, ?_, ?_, h.bound⟩
    · rw [hleft]
      omega
    · simp only [spentForm, hobject]
      exact set_object _ _ _
    · rw [husage, hjoined]
      omega
  · refine ⟨rfl, rfl, ?_, le_rfl, le_rfl, ?_, id⟩
    · rw [hleft]
      omega
    · rw [husage, hjoined]
      omega

theorem Accounted.incidentSpent (h : Accounted paid value) (hseconds : 0 ≤ seconds) (hfit : paid + seconds ≤ 2 ^ 63) :
    Accounted (paid + seconds) { value with activeSecondsLeft := max (wrap64 (value.activeSecondsLeft - seconds)) 0 } ∧
      Ledger value { value with activeSecondsLeft := max (wrap64 (value.activeSecondsLeft - seconds)) 0 } := by
  obtain ⟨hlow, hhigh⟩ := h.active
  rw [wrap64_of_fits (by omega) (by omega)]
  constructor
  · refine ⟨?_, h.version, h.object, h.usage, h.bound⟩
    dsimp only
    omega
  · refine ⟨rfl, rfl, ?_, le_rfl, le_rfl, le_rfl, id⟩
    dsimp only
    omega

theorem uncharged (hfree : call.charges value.runId = 0) (h : Accounted paid updated ∧ Ledger value updated) :
    Accounted (paid + call.charges value.runId) updated ∧ Ledger value updated := by
  rw [hfree, add_zero]
  exact h

variable [Platform]

/-- No edit moves a run's ledger back, as long as what it charges fits. -/
theorem Accounted.edit (h : Accounted paid value) (hedit : RunEdit call value updated)
    (hcharges : 0 ≤ call.charges value.runId) (hfit : paid + call.charges value.runId ≤ 2 ^ 63) :
    Accounted (paid + call.charges value.runId) updated ∧ Ledger value updated := by
  cases hedit with
  | spent _ hseconds hmilliseconds =>
    simp only [Call.charges, BEq.rfl, if_true]
    exact h.spent hseconds hmilliseconds
  | incidentSpent =>
    simp only [Call.charges, BEq.rfl, if_true] at hcharges hfit ⊢
    exact h.incidentSpent hcharges hfit
  | bound =>
    refine uncharged rfl (h.rebooked rfl fun hstatus => ?_)
    have hgeneration := h.bound hstatus
    have hempty : value.generation.isEmpty = false := by
      rw [← Bool.not_eq_true, String.isEmpty_iff]
      exact hgeneration
    simpa [boundForm, boundGeneration, hempty] using hgeneration
  | unprotected =>
    exact uncharged rfl ⟨⟨h.active, h.version, h.object, h.usage, h.bound⟩,
      ⟨rfl, rfl, le_rfl, le_rfl, le_rfl, le_rfl, fun _ => rfl⟩⟩
  | thawed =>
    exact uncharged rfl ⟨⟨h.active, h.version, h.object, h.usage, fun hstatus => by rcases hstatus with h | h <;> cases h⟩,
      ⟨rfl, rfl, le_rfl, le_rfl, le_max_left _ _, le_rfl, id⟩⟩
  | fenced _ hgeneration | recovered _ hgeneration =>
    exact uncharged rfl (h.rebooked rfl fun _ => hgeneration)
  | frozen _ _ hversion | skipped _ hversion | rerun _ hversion =>
    exact uncharged rfl (h.republished hversion rfl fun hstatus => by rcases hstatus with h | h <;> cases h)
  | paused _ hversion => exact uncharged rfl (h.republished hversion rfl h.bound)

/-- No applied call moves a run's ledger back, as long as what it charges fits. -/
theorem Accounted.step (h : Accounted paid value) (hstep : RunStep call value updated)
    (hcharges : 0 ≤ call.charges value.runId) (hfit : paid + call.charges value.runId ≤ 2 ^ 63) :
    Accounted (paid + call.charges value.runId) updated ∧ Ledger value updated := by
  cases hstep with
  | kept => exact ⟨h.mono (by omega), Ledger.refl value⟩
  | edited hedit => exact h.edit hedit hcharges hfit
  | indexed hstatus hversion =>
    exact uncharged rfl (h.republished hversion rfl fun _ => h.bound (.inl hstatus))
  | @setAside _ _ step _ hstatus hversion hskipped =>
    have hindexed : Accounted paid (indexedForm value step) ∧
        Ledger value (indexedForm value step) :=
      h.republished hversion rfl fun _ => h.bound (.inl hstatus)
    have hset : Accounted paid (skippedForm (indexedForm value step)) ∧
        Ledger (indexedForm value step) (skippedForm (indexedForm value step)) :=
      hindexed.1.republished hskipped rfl nofun
    exact uncharged rfl ⟨hset.1, hindexed.2.trans hset.2⟩
  | reopened => exact uncharged rfl (h.rebooked rfl nofun)

/-- How an applied call may move a run's generation: by its first bind to its own one, or by its
reopening. -/
theorem RunStep.generation (hstep : RunStep call value updated) : updated.generation = value.generation ∨
      (value.generation = "" ∧ ∃ network, updated.generation = generationFor network value.runId "") ∨
      value.status = .unresolved ∧ call.reopens = some (value.runId, updated.generation) ∧
        (networkOf updated.generation value.runId).isSome = true := by
  cases hstep with
  | kept | indexed | setAside => exact .inl rfl
  | reopened hstatus hreopenable => exact .inr (.inr ⟨hstatus, rfl, hreopenable.network⟩)
  | edited hedit =>
    cases hedit with
    | @bound _ _ _ networkId =>
      cases hempty : value.generation.isEmpty with
      | false => exact .inl (by simp [boundForm, boundGeneration, hempty])
      | true =>
        refine .inr (.inl ⟨String.isEmpty_iff.mp hempty, networkId, ?_⟩)
        simp [boundForm, boundGeneration, hempty]
    | _ => exact .inl rfl

end

variable {last : Nat}

section

variable {calls : List Call} {runId : String}

/-- The order of a run's generations: none, its own, its continuation. -/
def Follows (own continuation before later : String) : Prop :=
  (before = "" ∧ (later = "" ∨ later = own ∨ later = continuation)) ∨
    (before = own ∧ (later = own ∨ later = continuation)) ∨
    before = continuation ∧ later = continuation

theorem Follows.self {later} (h : Follows own continuation before later) : Follows own continuation later later := by
  unfold Follows at h ⊢
  tauto

theorem Follows.continued {later} (h : Follows own continuation before later) :
    Follows own continuation before continuation := by
  unfold Follows at h ⊢
  tauto

/-- Nothing comes before a run's first generation. -/
theorem Follows.unbound (hown : own ≠ "") (hcontinuation : continuation ≠ "")
    (h : Follows own continuation before "") : before = "" := by
  rcases h with ⟨hnone, -⟩ | ⟨-, hempty | hempty⟩ | ⟨-, hempty⟩
  · exact hnone
  · exact absurd hempty.symm hown
  · exact absurd hempty.symm hcontinuation
  · exact absurd hempty.symm hcontinuation

theorem eq_of_length_le_one {α} {items : List α} (h : items.length ≤ 1) {left right}
    (hleft : left ∈ items) (hright : right ∈ items) : left = right := by
  cases items with
  | nil => cases hleft
  | cons item rest =>
    obtain rfl : rest = [] := eq_nil_of_length_eq_zero (by simpa using h)
    rw [mem_singleton.mp hleft, mem_singleton.mp hright]

variable [Platform]

def recordAt (calls : List Call) (runId : String) (position : Nat) : Option Run :=
  (run (after (calls.take position)) runId).toOption

def charged (calls : List Call) (runId : String) : Int :=
  ((applied apply {} calls).map fun item => item.2.charges runId).sum

theorem recordAt_eq_some :
    recordAt calls runId position = some value ↔ run (after (calls.take position)) runId = .ok value := by
  unfold recordAt
  cases run (after (calls.take position)) runId with
  | ok found => simp [Except.toOption]
  | error refusal => simp [Except.toOption]

theorem recordAt_eq_none :
    recordAt calls runId position = none ↔ ∀ value, run (after (calls.take position)) runId ≠ .ok value := by
  rw [Option.eq_none_iff_forall_ne_some]
  refine forall_congr' fun value => ?_
  rw [ne_eq, recordAt_eq_some]

theorem after_take_succ (hposition : position < calls.length) :
    ∃ call, calls.take (position + 1) = calls.take position ++ [call] ∧
      after (calls.take (position + 1)) = step apply (after (calls.take position)) call := by
  refine ⟨calls[position], take_succ_eq_append_getElem hposition, ?_⟩
  unfold after
  rw [take_succ_eq_append_getElem hposition, runFrom_append, runFrom_cons, runFrom_nil]

theorem charged_take_le (hcharges : ∀ item ∈ applied apply {} calls, 0 ≤ item.2.charges runId) (position) :
    charged (calls.take position) runId ≤ charged calls runId := by
  have hsplit := @applied_take _ _ _ apply {} calls position
  unfold charged
  rw [hsplit, map_append, sum_append]
  have hrest : 0 ≤ ((applied apply (runFrom apply {} (calls.take position))
      (calls.drop position)).map fun item => item.2.charges runId).sum := by
    refine sum_nonneg fun amount hamount => ?_
    obtain ⟨item, hitem, rfl⟩ := mem_map.mp hamount
    refine hcharges item ?_
    rw [hsplit]
    exact mem_append_right _ hitem
  omega

theorem charged_nonneg (hcharges : ∀ item ∈ applied apply {} calls, 0 ≤ item.2.charges runId) :
    0 ≤ charged calls runId := by
  have hzero := charged_take_le hcharges 0
  simpa [charged, applied] using hzero

/-- The record at the next position is the one before, stepped by an applied call that charged what
the sequence charged there, or as it was. -/
theorem recordAt_succ (hposition : position < calls.length) (hvalue : recordAt calls runId position = some value)
    (hlater : recordAt calls runId (position + 1) = some later) :
    (later = value ∧ charged (calls.take (position + 1)) runId = charged (calls.take position) runId) ∨
      ∃ call, (after (calls.take position), call) ∈ applied apply {} calls ∧ RunStep call value later ∧
        charged (calls.take (position + 1)) runId = charged (calls.take position) runId + call.charges runId := by
  rw [recordAt_eq_some] at hvalue hlater
  obtain ⟨call, htake, hafter⟩ := after_take_succ hposition
  rw [hafter] at hlater
  unfold charged
  rw [htake]
  cases happly : apply (after (calls.take position)) call with
  | error refusal =>
    rw [step_error happly] at hlater
    rw [applied_snoc_error happly]
    exact .inl ⟨Except.ok.inj (hlater.symm.trans hvalue), rfl⟩
  | ok next =>
    rw [step_ok happly] at hlater
    have hsnoc := applied_snoc_ok happly
    have hchange := runsChange_of_ok (exclusive_after (calls.take position)).shadowed happly
    refine .inr ⟨call, ?_, ?_, ?_⟩
    · rw [@applied_take _ _ _ apply {} calls (position + 1), htake, hsnoc]
      simp [after]
    · cases hchange.foundRun hlater with
      | stepped hrun hstep =>
        obtain rfl := Except.ok.inj (hvalue.symm.trans hrun)
        exact hstep
      | started hunknown => exact absurd hvalue (hunknown value)
    · rw [hsnoc]
      simp

/-- Over an interval of positions that all find the run, its ledger only moves one way. -/
theorem ledger_of_le (hcharges : ∀ item ∈ applied apply {} calls, 0 ≤ item.2.charges runId)
    (hfit : charged calls runId ≤ 2 ^ 63) (hlast : last ≤ calls.length)
    (hlives : ∀ position, first ≤ position → position ≤ last →
      (recordAt calls runId position).isSome = true) (hvalue : recordAt calls runId first = some value)
    (haccounted : Accounted (charged (calls.take first) runId) value) (hle : first ≤ last) :
    ∀ later, recordAt calls runId last = some later →
      Accounted (charged (calls.take last) runId) later ∧ Ledger value later := by
  induction last, hle using Nat.le_induction with
  | base =>
    intro later hlater
    obtain rfl := Option.some.inj (hvalue.symm.trans hlater)
    exact ⟨haccounted, Ledger.refl value⟩
  | succ last hle ih =>
    intro later hlater
    obtain ⟨middle, hmiddle⟩ := Option.isSome_iff_exists.mp (hlives last hle (by omega))
    obtain ⟨hkept, hledger⟩ := ih (by omega)
      (fun position hfirst hposition => hlives position hfirst (by omega)) middle hmiddle
    rcases recordAt_succ (by omega) hmiddle hlater with ⟨rfl, hsame⟩ | ⟨call, hcall, hstep, hmore⟩
    · rw [hsame]
      exact ⟨hkept, hledger⟩
    · have hid : middle.runId = runId := (run_mem (recordAt_eq_some.mp hmiddle)).2
      have hbound := charged_take_le hcharges (last + 1)
      rw [hmore] at hbound ⊢
      obtain ⟨hnext, hmoved⟩ := hkept.step hstep (hid.symm ▸ hcharges _ hcall)
        (by rw [hid]; omega)
      rw [hid] at hnext
      exact ⟨hnext, hledger.trans hmoved⟩

theorem claimed_at_birth (hfirst : first < calls.length) (hborn : recordAt calls runId first = none)
    (hvalue : recordAt calls runId (first + 1) = some value) :
    ∃ due token now keyFingerprint, value = leasedForm runId token due now keyFingerprint ∧
      ∃ item ∈ (after (calls.take first)).routines, due.definition = item.definition := by
  rw [recordAt_eq_none] at hborn
  rw [recordAt_eq_some] at hvalue
  obtain ⟨call, -, hafter⟩ := after_take_succ hfirst
  rw [hafter] at hvalue
  cases happly : apply (after (calls.take first)) call with
  | error refusal =>
    rw [step_error happly] at hvalue
    exact absurd hvalue (hborn value)
  | ok next =>
    rw [step_ok happly] at hvalue
    have hexclusive := exclusive_after (calls.take first)
    have hchange := runsChange_of_ok hexclusive.shadowed happly
    cases hchange.foundRun hvalue with
    | stepped hrun => exact absurd hrun (hborn _)
    | @started swept due now keyFingerprint token _ _ _ hswept hsome =>
      refine ⟨due, token, now, keyFingerprint, rfl, ?_⟩
      obtain ⟨item, hitem, -, hsame⟩ := sweep_definition hexclusive.ids hswept
        (claimable_of_some hsome).listed
      exact ⟨item, hitem, hsame⟩

theorem accounted_at_birth {token due now spent keyFingerprint}
    (hspent : 0 ≤ spent) : Accounted spent (leasedForm runId token due now keyFingerprint) := by
  have hactive : (leasedForm runId token due now keyFingerprint).activeSecondsLeft =
      min (360 + 30 * runUnits due) maxActiveSeconds := rfl
  have hunits : 0 ≤ runUnits due := Int.natCast_nonneg _
  have hmost : maxActiveSeconds = 7200 := rfl
  have husage : 0 ≤ duration (objectOf [("duration_ms", int 0)]) ∧
      duration (objectOf [("duration_ms", int 0)]) ≤ maxUsageMs := by decide
  refine ⟨?_, ⟨le_refl (0 : Int), ?_⟩, ⟨_, rfl⟩, husage, nofun⟩
  · rw [hactive]
    omega
  · show (0 : Int) < 2 ^ 63
    decide

/-- A run's generations between two positions, in order, the continuation only after its own. -/
structure Generations (calls : List Call) (runId own continuation : String) (first last : Nat) :
    Prop where
  ordered : ∀ i j, first ≤ i → i ≤ j → j ≤ last → ∀ value later,
    recordAt calls runId i = some value → recordAt calls runId j = some later →
      Follows own continuation value.generation later.generation
  adjacent : ∀ i, first ≤ i → i < last → ∀ value later, recordAt calls runId i = some value →
    recordAt calls runId (i + 1) = some later → value.generation = "" → later.generation = "" ∨ later.generation = own

/-- One position further, when the record there follows every earlier one. -/
theorem Generations.succ (h : Generations calls runId own continuation first last)
    (hle : first ≤ last) (hvalue : recordAt calls runId last = some value)
    (hlater : recordAt calls runId (last + 1) = some later)
    (hfollows : ∀ i, first ≤ i → i ≤ last → ∀ before, recordAt calls runId i = some before →
      Follows own continuation before.generation later.generation)
    (hadjacent : value.generation = "" → later.generation = "" ∨ later.generation = own) :
    Generations calls runId own continuation first (last + 1) := by
  constructor
  · intro i j hi hij hj before after hbefore hafter
    by_cases hlast : j = last + 1
    · subst hlast
      obtain rfl := Option.some.inj (hlater.symm.trans hafter)
      by_cases hsame : i = last + 1
      · subst hsame
        obtain rfl := Option.some.inj (hlater.symm.trans hbefore)
        exact (hfollows last hle le_rfl value hvalue).self
      · exact hfollows i hi (by omega) before hbefore
    · exact h.ordered i j hi hij (by omega) before after hbefore hafter
  · intro i hi hlast before after hbefore hafter hnone
    by_cases hsame : i = last
    · subst hsame
      obtain rfl := Option.some.inj (hvalue.symm.trans hbefore)
      obtain rfl := Option.some.inj (hlater.symm.trans hafter)
      exact hadjacent hnone
    · exact h.adjacent i hi (by omega) before after hbefore hafter hnone

theorem generations_of_le (hcontinuation : continuation ≠ "")
    (hreopened : ∀ generation, (runId, generation) ∈ reopenings calls → generation = continuation)
    (hlast : last ≤ calls.length) (hlives : ∀ position, first ≤ position → position ≤ last →
      (recordAt calls runId position).isSome = true) (hbound : ∀ position, first ≤ position → position ≤ last → ∀ value,
      recordAt calls runId position = some value → value.status = .unresolved → value.generation ≠ "")
    (hfirst : ∀ value, recordAt calls runId first = some value → value.generation = "") (hle : first ≤ last) :
    ∃ own, (∃ network, own = generationFor network runId "") ∧ Generations calls runId own continuation first last := by
  induction last, hle using Nat.le_induction with
  | base =>
    refine ⟨_, ⟨"", rfl⟩, ?_, fun i hi hlt => by omega⟩
    intro i j hi hij hj value later hvalue hlater
    obtain rfl : i = first := by omega
    obtain rfl : j = i := by omega
    exact .inl ⟨hfirst value hvalue, .inl (hfirst later hlater)⟩
  | succ last hle ih =>
    obtain ⟨own, ⟨network, hown⟩, hkept⟩ := ih (by omega)
      (fun position hlow hhigh => hlives position hlow (by omega))
      (fun position hlow hhigh => hbound position hlow (by omega))
    obtain ⟨value, hvalue⟩ := Option.isSome_iff_exists.mp (hlives last hle (by omega))
    obtain ⟨later, hlater⟩ := Option.isSome_iff_exists.mp (hlives (last + 1) (by omega) le_rfl)
    have hid : value.runId = runId := (run_mem (recordAt_eq_some.mp hvalue)).2
    have hempty : own ≠ "" := hown ▸ generationFor_ne_empty network runId ""
    -- a record with the generation before it follows what that one follows
    have hsame : later.generation = value.generation →
        Generations calls runId own continuation first (last + 1) := by
      intro heq
      refine hkept.succ hle hvalue hlater (fun i hi hi' before hbefore => ?_) (fun hnone => ?_)
      · rw [heq]
        exact hkept.ordered i last hi hi' le_rfl before value hbefore hvalue
      · exact .inl (heq.trans hnone)
    rcases recordAt_succ (by omega) hvalue hlater with ⟨rfl, -⟩ | ⟨call, hcall, hstep, -⟩
    · exact ⟨own, ⟨network, hown⟩, hsame rfl⟩
    · rcases hstep.generation with heq | ⟨hnone, other, hbind⟩ | ⟨hstatus, hreopens, -⟩
      · exact ⟨own, ⟨network, hown⟩, hsame heq⟩
      · -- its first bind: every earlier record has no generation yet
        have hearlier : ∀ i, first ≤ i → i ≤ last → ∀ before,
            recordAt calls runId i = some before → before.generation = "" := by
          intro i hi hi' before hbefore
          have hfollows := hkept.ordered i last hi hi' le_rfl before value hbefore hvalue
          rw [hnone] at hfollows
          exact hfollows.unbound hempty hcontinuation
        rw [hid] at hbind
        refine ⟨_, ⟨other, rfl⟩, ?_⟩
        rw [← hbind]
        have hnew : Generations calls runId later.generation continuation first last := by
          constructor
          · intro i j hi hij hj before after hbefore hafter
            exact .inl ⟨hearlier i hi (by omega) before hbefore, .inl (hearlier j (by omega) hj after hafter)⟩
          · intro i hi hi' before after hbefore hafter _
            exact .inl (hearlier (i + 1) (by omega) (by omega) after hafter)
        refine hnew.succ hle hvalue hlater (fun i hi hi' before hbefore => ?_) (fun _ => .inr rfl)
        exact .inl ⟨hearlier i hi hi' before hbefore, .inr (.inl rfl)⟩
      · rw [hid] at hreopens
        have hmem : (runId, later.generation) ∈ reopenings calls := mem_filterMap.mpr ⟨_, hcall, hreopens⟩
        have hcontinued := hreopened _ hmem
        refine ⟨own, ⟨network, hown⟩, hkept.succ hle hvalue hlater
          (fun i hi hi' before hbefore => ?_) (fun hnone => ?_)⟩
        · rw [hcontinued]
          exact (hkept.ordered i last hi hi' le_rfl before value hbefore hvalue).continued
        · exact absurd hnone (hbound last hle (by omega) value hvalue hstatus)

theorem exists_continuation (honce : ((reopenings calls).filter fun item => item.1 == runId).length ≤ 1) :
    ∃ continuation, continuation ≠ "" ∧
      ∀ generation, (runId, generation) ∈ reopenings calls → generation = continuation := by
  by_cases hsome : ∃ generation, (runId, generation) ∈ reopenings calls
  · obtain ⟨continuation, hmem⟩ := hsome
    refine ⟨continuation, ?_, fun generation hgeneration => ?_⟩
    · rintro rfl
      obtain ⟨⟨state, action, entropy⟩, happlied, hreopens⟩ := mem_filterMap.mp hmem
      obtain ⟨next, happly⟩ := applied_ok happlied
      cases action with
      | reopenIncident incidentId now generation =>
        cases hreopens
        obtain ⟨value, current, token, -, -, hreopenable, -, -⟩ := reopenIncident_of_ok happly
        exact absurd hreopenable.network (by simp [networkOf, generationParts])
      | _ => cases hreopens
    · have hboth := eq_of_length_le_one honce
        (mem_filter.mpr ⟨hgeneration, BEq.rfl⟩) (mem_filter.mpr ⟨hmem, BEq.rfl⟩)
      exact (Prod.mk.inj hboth).2
  · refine ⟨generationFor "" runId "s1", generationFor_ne_empty _ _ _, fun generation hmem => ?_⟩
    exact absurd ⟨generation, hmem⟩ hsome

/-- From its claim to its last record, a run's usable active time starts at its step count's and
never grows; its notice version, its answered requests and its duration never shrink; it stays
unprotected once it lost its protection; and it keeps its Routine and its revision. Its generation
moves from none to its own and from its own to its one continuation. -/
theorem run_ledgers_move_one_way (calls : List Call) (runId : String) (first last : Nat)
    (hlast : last ≤ calls.length) (hborn : recordAt calls runId first = none)
    (hlives : ∀ position, first < position → position ≤ last → (recordAt calls runId position).isSome = true)
    (hcharges : ∀ item ∈ applied apply {} calls, 0 ≤ item.2.charges runId) (hfit : charged calls runId ≤ 2 ^ 63)
    (honce : ((reopenings calls).filter fun item => item.1 == runId).length ≤ 1) :
    (∀ value, first < last → recordAt calls runId (first + 1) = some value →
      ∃ item ∈ (after (calls.take first)).routines, value.routineId = item.routineId ∧
        value.revision = item.revision ∧
        value.activeSecondsLeft = activeSeconds (planSteps item.plan).length) ∧
    (∀ i j, first < i → i ≤ j → j ≤ last → ∀ value later, recordAt calls runId i = some value →
      recordAt calls runId j = some later → Ledger value later ∧ duration later.usage ≤ maxUsageMs) ∧
    ∃ own continuation, (∃ network, own = generationFor network runId "") ∧
      (∀ generation, (runId, generation) ∈ reopenings calls → generation = continuation) ∧
      Generations calls runId own continuation (first + 1) last := by
  have haccounted : ∀ i, first < i → i ≤ last → ∀ value, recordAt calls runId i = some value →
      Accounted (charged (calls.take i) runId) value := by
    intro i hi hilast value hvalue
    obtain ⟨start, hstart⟩ := Option.isSome_iff_exists.mp (hlives (first + 1) (by omega) (by omega))
    obtain ⟨due, token, now, keyFingerprint, rfl, -⟩ := claimed_at_birth (by omega) hborn hstart
    have hnonneg : 0 ≤ charged (calls.take (first + 1)) runId := by
      refine charged_nonneg fun item hitem => hcharges item ?_
      rw [@applied_take _ _ _ apply {} calls (first + 1)]
      exact mem_append_left _ hitem
    exact (ledger_of_le hcharges hfit (by omega)
      (fun position hlow hhigh => hlives position (by omega) (by omega)) hstart
      (accounted_at_birth hnonneg) hi value hvalue).1
  refine ⟨?_, ?_, ?_⟩
  · intro value hlt hvalue
    obtain ⟨due, token, now, keyFingerprint, rfl, item, hitem, hsame⟩ :=
      claimed_at_birth (by omega) hborn hvalue
    refine ⟨item, hitem, routineId_eq_of_definition hsame, ?_, ?_⟩
    · have hrevision := congrArg Routine.revision hsame
      exact hrevision
    · rw [← plan_eq_of_definition hsame]
      rfl
  · intro i j hi hij hj value later hvalue hlater
    obtain ⟨hlater', hledger⟩ := ledger_of_le hcharges hfit (by omega)
      (fun position hlow hhigh => hlives position (by omega) (by omega)) hvalue
      (haccounted i hi (by omega) value hvalue) hij later hlater
    exact ⟨hledger, hlater'.usage.2⟩
  · obtain ⟨continuation, hempty, hreopened⟩ := exists_continuation honce
    by_cases hlt : first < last
    · obtain ⟨own, hown, hgenerations⟩ := generations_of_le hempty hreopened hlast
        (fun position hlow hhigh => hlives position (by omega) hhigh)
        (fun position hlow hhigh value hvalue hstatus =>
          (haccounted position (by omega) hhigh value hvalue).bound (.inr hstatus))
        (fun value hvalue => by
          obtain ⟨due, token, now, keyFingerprint, rfl, -⟩ := claimed_at_birth (by omega) hborn hvalue
          rfl)
        (show first + 1 ≤ last by omega)
      exact ⟨own, continuation, hown, hreopened, hgenerations⟩
    · exact ⟨_, continuation, ⟨"", rfl⟩, hreopened, fun i j hi hij hj => by omega,
        fun i hi hlow => by omega⟩

end

/-- The seconds of the longest elapsed time a caller can charge. -/
def longest : Int := 2 ^ 63 - 1

/-- A run that overspends its active time by ten seconds, is held and indexed, and is charged some
seconds more. -/
def chargedCalls (seconds : Int) : List Call :=
  [createMinute, ⟨.claim 1000 zeros true, draw 2⟩,
    ⟨.bindGeneration (drawnId 2) (drawnLease 2) 1001 "n", draw 3⟩,
    ⟨.spend (drawnId 2) (drawnLease 2) 1002 (400, 0), draw 4⟩,
    ⟨.holdRecovered (drawnId 2) (drawnLease 2).sha256, draw 5⟩,
    ⟨.settleHold (drawnId 2) 1003 unknownStep, draw 6⟩,
    ⟨.spendIncident (drawnId 2) seconds, draw 7⟩]

attribute [local instance] utcPlatform

theorem recordAt_chargedCalls (seconds position) : recordAt (chargedCalls seconds) (drawnId 2) (position + 1) =
      (run (runFrom apply minuteState ((chargedCalls seconds).tail.take position)) (drawnId 2)).toOption := by
  unfold recordAt chargedCalls
  rw [take_succ_cons, after_createMinute]
  rfl

/-- The claimed run is found from its claim on, and charged only nonnegative durations. -/
theorem lives_of_chargedCalls (h : ((List.range 6).all fun count => ((run (runFrom apply minuteState
      ((chargedCalls seconds).tail.take (count + 1))) (drawnId 2)).toOption).isSome) = true) :
    ∀ position, 1 < position → position ≤ 7 → (recordAt (chargedCalls seconds) (drawnId 2) position).isSome = true := by
  intro position hlow hhigh
  have hfound := all_eq_true.mp h (position - 2) (mem_range.mpr (by omega))
  rw [← recordAt_chargedCalls, show position - 2 + 1 + 1 = position by omega] at hfound
  exact hfound

theorem applied_chargedCalls (seconds) : applied apply {} (chargedCalls seconds) =
      ({}, createMinute) :: applied apply minuteState (chargedCalls seconds).tail :=
  applied_createMinute _

theorem run_ledgers_move_one_way_charged :
    recordAt (chargedCalls 5) (drawnId 2) 1 = none ∧ charged (chargedCalls 5) (drawnId 2) = 405 ∧
      ∃ value later, recordAt (chargedCalls 5) (drawnId 2) 2 = some value ∧
        recordAt (chargedCalls 5) (drawnId 2) 7 = some later ∧ Ledger value later := by
  have hborn : recordAt (chargedCalls 5) (drawnId 2) 1 = none := (recordAt_chargedCalls 5 0).trans rfl
  have hlives := @lives_of_chargedCalls 5 (by decide +kernel)
  have htrace : (∀ item ∈ applied apply {} (chargedCalls 5), 0 ≤ item.2.charges (drawnId 2)) ∧
      charged (chargedCalls 5) (drawnId 2) = 405 ∧
      ((reopenings (chargedCalls 5)).filter fun item => item.1 == drawnId 2).length ≤ 1 := by
    unfold charged reopenings
    rw [applied_chargedCalls]
    decide +kernel
  obtain ⟨hcharges, hcharged, honce⟩ := htrace
  obtain ⟨value, hvalue⟩ := Option.isSome_iff_exists.mp (hlives 2 (by decide) (by decide))
  obtain ⟨later, hlater⟩ := Option.isSome_iff_exists.mp (hlives 7 (by decide) (by decide))
  refine ⟨hborn, hcharged, value, later, hvalue, hlater, ?_⟩
  exact ((run_ledgers_move_one_way (chargedCalls 5) (drawnId 2) 1 7 (by decide) hborn hlives hcharges
    (by rw [hcharged]; decide) honce).2.1 2 7 (by decide) (by decide) (by decide) value later hvalue
    hlater).1

/-- A charge of the longest elapsed time to the incident of a run that overspent its active time wraps
around: the run has none left before it, and more than it started with after it. -/
theorem overflowing_charges_restore_time :
    ¬∀ (calls : List Call) (runId : String) (first last : Nat), last ≤ calls.length →
      recordAt calls runId first = none →
      (∀ position, first < position → position ≤ last → (recordAt calls runId position).isSome = true) →
      (∀ item ∈ applied apply {} calls, 0 ≤ item.2.charges runId) →
      ((reopenings calls).filter fun item => item.1 == runId).length ≤ 1 →
      ∀ i j, first < i → i ≤ j → j ≤ last → ∀ value later, recordAt calls runId i = some value →
        recordAt calls runId j = some later → max later.activeSecondsLeft 0 ≤ max value.activeSecondsLeft 0 := by
  intro h
  have hborn : recordAt (chargedCalls longest) (drawnId 2) 1 = none := (recordAt_chargedCalls longest 0).trans rfl
  have hlives := @lives_of_chargedCalls longest (by decide +kernel)
  have htrace : (∀ item ∈ applied apply {} (chargedCalls longest),
        0 ≤ item.2.charges (drawnId 2)) ∧
      ((reopenings (chargedCalls longest)).filter fun item => item.1 == drawnId 2).length ≤ 1 := by
    unfold reopenings
    rw [applied_chargedCalls]
    decide +kernel
  obtain ⟨hcharges, honce⟩ := htrace
  obtain ⟨value, hvalue⟩ := Option.isSome_iff_exists.mp (hlives 6 (by decide) (by decide))
  obtain ⟨later, hlater⟩ := Option.isSome_iff_exists.mp (hlives 7 (by decide) (by decide))
  have hwrapped : ((recordAt (chargedCalls longest) (drawnId 2) 6).any fun value =>
        value.activeSecondsLeft ≤ 0) = true ∧
      ((recordAt (chargedCalls longest) (drawnId 2) 7).any fun value =>
        0 < value.activeSecondsLeft) = true := by
    rw [recordAt_chargedCalls, recordAt_chargedCalls]
    decide +kernel
  obtain ⟨hspent, hrestored⟩ := hwrapped
  rw [hvalue, Option.any_some, decide_eq_true_eq] at hspent
  rw [hlater, Option.any_some, decide_eq_true_eq] at hrestored
  have hmoved := h (chargedCalls longest) (drawnId 2) 1 7 (by decide) hborn hlives hcharges honce 6 7
    (by decide) (by decide) (by decide) value later hvalue hlater
  omega

end ShimpzTeams.Routines
