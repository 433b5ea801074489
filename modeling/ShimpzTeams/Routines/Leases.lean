import ShimpzTeams.Routines.Discards

/-!
# Lease tokens over whole histories

A run found leased under a token was found so before, or the last call drew that
token. So a token that stopped being a run's current one never is again, and its
expiry moves only while it still drives the run.
-/

namespace ShimpzTeams.Routines

open StrictJson Protocol Library List

variable {call : Call} {state : TeamRoutines} {now : Int}

/-- The tokens the random source gave some calls. -/
def mintedTokens (calls : List Call) : List String := calls.filterMap Call.mintedToken

/-- The random source gives no token twice. -/
def FreshTokens (calls : List Call) : Prop := (mintedTokens calls).Nodup

section

theorem mintedTokens_snoc (calls call) :
    mintedTokens (calls ++ [call]) = mintedTokens calls ++ call.mintedToken.toList := by
  unfold mintedTokens
  rw [filterMap_append]
  cases h : call.mintedToken <;> simp [h]

theorem mintedToken_of_newToken {token} (h : newToken call.entropy = .ok token) : call.mintedToken = some token := by
  obtain ⟨bytes, hbytes, rfl⟩ := newToken_eq_ok.mp h
  simp [Call.mintedToken, hbytes]

variable [Platform]

def CollisionFree (calls : List Call) : Prop :=
  ∀ left ∈ mintedTokens calls, ∀ right ∈ mintedTokens calls,
    leaseSha256 left = leaseSha256 right → left = right

structure DistinctTokens (calls : List Call) : Prop where
  fresh : FreshTokens calls
  distinct : CollisionFree calls

theorem DistinctTokens.left {calls later} (h : DistinctTokens (calls ++ later)) : DistinctTokens calls := by
  obtain ⟨hfresh, hdistinct⟩ := h
  unfold FreshTokens CollisionFree mintedTokens at *
  rw [filterMap_append] at hfresh hdistinct
  refine ⟨(nodup_append.mp hfresh).1, fun left hleft right hright => ?_⟩
  exact hdistinct left (mem_append_left _ hleft) right (mem_append_left _ hright)

theorem DistinctTokens.last {calls call} (h : DistinctTokens (calls ++ [call])) {token other}
    (htoken : call.mintedToken = some token) (hother : other ∈ mintedTokens calls) :
    leaseSha256 other ≠ leaseSha256 token := by
  obtain ⟨hfresh, hdistinct⟩ := h
  unfold FreshTokens CollisionFree at *
  rw [mintedTokens_snoc, htoken] at hfresh hdistinct
  intro heq
  have hsame := hdistinct other (mem_append_left _ hother) token (by simp) heq
  exact (nodup_append.mp hfresh).2.2 other hother token (by simp) hsame

end

def Current (state : TeamRoutines) (runId digest : String) : Prop :=
  ∃ value, run state runId = .ok value ∧ value.status = .leased ∧ value.leaseSha256 = digest

theorem current_iff {runId digest} :
    Current state runId digest ↔
      ((run state runId).toOption.any fun value =>
        value.status == .leased && value.leaseSha256 == digest) = true := by
  unfold Current
  cases run state runId with
  | ok value => simp [Except.toOption]
  | error refusal => simp [Except.toOption]

instance {state : TeamRoutines} {runId digest : String} : Decidable (Current state runId digest) :=
  decidable_of_iff _ current_iff.symm

section

variable {state next : TeamRoutines} {call : Call} {runId : String} {value : Run}
variable [Platform]

theorem RunEdit.digest {before} (h : RunEdit call before value) (hleased : value.status = .leased) :
    before.status = .leased ∧ before.leaseSha256 = value.leaseSha256 ∨
      ∃ token, newToken call.entropy = .ok token ∧ value.leaseSha256 = leaseSha256 token := by
  cases h with
  | bound | spent | unprotected | incidentSpent | paused => exact .inl ⟨hleased, rfl⟩
  | thawed _ htoken => exact .inr ⟨_, htoken, rfl⟩
  | frozen | fenced | recovered | skipped | rerun => cases hleased

theorem RunsChange.leased (h : RunsChange state call next.runs next.discards)
    (hfound : run next runId = .ok value) (hleased : value.status = .leased) :
    (∃ before, run state runId = .ok before ∧ before.status = .leased ∧
        before.leaseSha256 = value.leaseSha256 ∧ (value = before ∨ RunEdit call before value)) ∨
      ∃ token, call.mintedToken = some token ∧ value.leaseSha256 = leaseSha256 token := by
  cases h.foundRun hfound with
  | stepped hrun hstep =>
    cases hstep with
    | kept => exact .inl ⟨value, hrun, hleased, rfl, .inl rfl⟩
    | edited hedit =>
      rcases hedit.digest hleased with ⟨hbefore, hdigest⟩ | ⟨token, htoken, hdigest⟩
      · exact .inl ⟨_, hrun, hbefore, hdigest, .inr hedit⟩
      · exact .inr ⟨token, mintedToken_of_newToken htoken, hdigest⟩
    | indexed | setAside => cases hleased
    | reopened _ _ htoken => exact .inr ⟨_, mintedToken_of_newToken htoken, rfl⟩
  | started _ _ _ htoken => exact .inr ⟨_, mintedToken_of_newToken htoken, rfl⟩

/-- An applied worker's call found its run leased under the digest it presents, and not expired. -/
theorem drives_of_presents {lease} (hpresents : call.presents = some (runId, lease, now))
    (h : apply state call = .ok next) : ∃ value, run state runId = .ok value ∧ Drives value lease now := by
  obtain ⟨action, entropy⟩ := call
  cases action with
  | bindGeneration =>
    obtain ⟨rfl, rfl, rfl⟩ := by simpa [Call.presents] using hpresents
    obtain ⟨value, hrun, hdrives, -⟩ := bindGeneration_of_ok h
    exact ⟨value, hrun, hdrives⟩
  | spend =>
    obtain ⟨rfl, rfl, rfl⟩ := by simpa [Call.presents] using hpresents
    obtain ⟨value, hrun, hdrives, -⟩ := spend_of_ok h
    exact ⟨value, hrun, hdrives⟩
  | freeze =>
    obtain ⟨rfl, rfl, rfl⟩ := by simpa [Call.presents] using hpresents
    obtain ⟨value, current, told, hrun, hdrives, -⟩ := freeze_of_ok h
    exact ⟨value, hrun, hdrives⟩
  | finish =>
    obtain ⟨rfl, rfl, rfl⟩ := by simpa [Call.presents] using hpresents
    obtain ⟨value, current, told, hrun, hdrives, -⟩ := finish_of_ok h
    exact ⟨value, hrun, hdrives⟩
  | fence =>
    obtain ⟨rfl, rfl, rfl⟩ := by simpa [Call.presents] using hpresents
    obtain ⟨value, hrun, hdrives, -⟩ := fence_of_ok h
    exact ⟨value, hrun, hdrives⟩
  | _ => cases hpresents

end

variable {keyFingerprint : String} {entropy : Entropy}

section

variable {before later : List Call} {runId digest : String}

theorem mintedTokens_append (before later) : mintedTokens before ⊆ mintedTokens (before ++ later) := by
  unfold mintedTokens
  rw [filterMap_append]
  exact subset_append_left _ _

theorem activeSeconds_nonneg {units} (h : 0 ≤ units) : 0 ≤ activeSeconds units := by
  unfold activeSeconds maxActiveSeconds
  omega

/-- The bounds of a claimed lease: its first window until the segment starts, and then the run's
active time once more. -/
structure ClaimedLease (claimedAt active : Int) (value : Run) : Prop where
  extended : value.leaseExpiresAt ≤ claimedAt + 900 + active + 300
  unspent : value.activeSecondsLeft ≤ active
  first : value.generation = "" → value.leaseExpiresAt ≤ claimedAt + 900

theorem ClaimedLease.bound {claimedAt active value lease} (h : ClaimedLease claimedAt active value)
    (hactive : 0 ≤ active) (hdrives : Drives value lease now) (networkId) :
    ClaimedLease claimedAt active (boundForm value networkId now) := by
  cases hempty : value.generation.isEmpty with
  | false =>
    have hsame : boundForm value networkId now = value := by
      simp [boundForm, boundGeneration, hempty]
    rw [hsame]
    exact h
  | true =>
    have hfirst := h.first (String.isEmpty_iff.mp hempty)
    have hearly := hdrives.unexpired
    have hunspent := h.unspent
    have hexpires : (boundForm value networkId now).leaseExpiresAt =
        max value.leaseExpiresAt (now + max value.activeSecondsLeft 0 + 300) := by
      simp [boundForm, hempty, leaseUntil, leaseMarginSeconds]
    refine ⟨?_, hunspent, fun hnone => ?_⟩
    · rw [hexpires]
      omega
    · have hbound : generationFor networkId value.runId "" = "" := by
        simpa [boundForm, boundGeneration, hempty] using hnone
      exact absurd hbound (generationFor_ne_empty networkId value.runId "")

variable [Platform]

theorem minted_of_current (calls) : ∀ runId digest, Current (after calls) runId digest →
      ∃ token ∈ mintedTokens calls, digest = leaseSha256 token := by
  refine @run_induction _ _ _ apply {} (fun _ => True)
    (fun calls state => ∀ runId digest, Current state runId digest →
      ∃ token ∈ mintedTokens calls, digest = leaseSha256 token)
    (fun _ _ _ => trivial) ?_ ?_ ?_ calls trivial
  · rintro runId digest ⟨value, hrun, -⟩
    cases hrun
  · intro calls call refusal _ hbefore _ runId digest hcurrent
    obtain ⟨token, htoken, hdigest⟩ := hbefore runId digest hcurrent
    exact ⟨token, mintedTokens_append calls [call] htoken, hdigest⟩
  · rintro calls call next _ hbefore h runId digest ⟨value, hfound, hleased, rfl⟩
    have hchange := runsChange_of_ok (exclusive_after calls).shadowed h
    rcases hchange.leased hfound hleased with ⟨found, hrun, hstatus, hdigest, -⟩ | ⟨token, htoken, heq⟩
    · obtain ⟨token, htoken, heq⟩ := hbefore runId _ ⟨found, hrun, hstatus, hdigest⟩
      exact ⟨token, mintedTokens_append calls [call] htoken, heq⟩
    · refine ⟨token, ?_, heq⟩
      rw [mintedTokens_snoc, htoken]
      exact mem_append_right _ (by simp)

section

variable (hdistinct : DistinctTokens (before ++ later))
  (hminted : ∃ token ∈ mintedTokens before, digest = leaseSha256 token)

include hdistinct hminted

/-- What holds of a run while it is leased under a digest, and is kept by every edit of it, holds as
long as it is leased under that digest: no later call draws the token again. -/
theorem leased_invariant {holds : Run → Prop}
    (hstart : ∀ value, run (after before) runId = .ok value → value.status = .leased →
      value.leaseSha256 = digest → holds value)
    (hedits : ∀ call ∈ later, ∀ value updated, value.runId = runId → value.status = .leased →
      value.leaseSha256 = digest → updated.status = .leased → RunEdit call value updated →
        holds value → holds updated) :
    ∀ value, run (after (before ++ later)) runId = .ok value → value.status = .leased →
      value.leaseSha256 = digest → holds value := by
  have hrun := @run_induction _ _ _ apply (after before)
    (fun later => DistinctTokens (before ++ later) ∧ ∀ call ∈ later, ∀ value updated,
      value.runId = runId → value.status = .leased → value.leaseSha256 = digest →
        updated.status = .leased → RunEdit call value updated → holds value → holds updated)
    (fun _ state => ∀ value, run state runId = .ok value → value.status = .leased →
      value.leaseSha256 = digest → holds value) ?_ hstart ?_ ?_ later ⟨hdistinct, hedits⟩
  · unfold after at hrun ⊢
    rwa [runFrom_append]
  · rintro calls call ⟨hdistinct, hedits⟩
    rw [← append_assoc] at hdistinct
    exact ⟨hdistinct.left, fun call hcall => hedits call (mem_append_left _ hcall)⟩
  · intro calls call refusal _ hbefore _
    exact hbefore
  · rintro calls call next ⟨hdistinct, hedits⟩ hbefore h value hfound hleased rfl
    have hstate : runFrom apply (after before) calls = after (before ++ calls) := by
      unfold after
      rw [runFrom_append]
    rw [hstate] at hbefore h
    have hchange := runsChange_of_ok (exclusive_after (before ++ calls)).shadowed h
    rcases hchange.leased hfound hleased with ⟨found, hrun, hstatus, hdigest, hsame⟩ | ⟨token, htoken, heq⟩
    · have hholds := hbefore found hrun hstatus hdigest
      rcases hsame with rfl | hedit
      · exact hholds
      · exact hedits call (by simp) found value (run_mem hrun).2 hstatus hdigest hleased hedit
          hholds
    · -- the token was drawn before, so this call cannot draw its digest again
      obtain ⟨other, hother, hdigest⟩ := hminted
      rw [← append_assoc] at hdistinct
      have hknown := mintedTokens_append before calls hother
      exact absurd (hdigest.symm.trans heq) (hdistinct.last htoken hknown)

/-- A token that stopped being a run's current one never is again. -/
theorem lost_stays_lost (hlost : ¬Current (after before) runId digest) :
    ¬Current (after (before ++ later)) runId digest := by
  rintro ⟨value, hrun, hleased, hdigest⟩
  refine @leased_invariant before later runId digest _ hdistinct hminted (fun _ => False) ?_ ?_ value
    hrun hleased hdigest
  · intro value hrun hleased hdigest
    exact hlost ⟨value, hrun, hleased, hdigest⟩
  · intro call _ value updated _ _ _ _ _ hfalse
    exact hfalse

/-- While no bind steps back before it, an expiry does not move. -/
theorem expiry_stays {expiry} (hstart : ∀ value, run (after before) runId = .ok value → value.leaseExpiresAt ≤ expiry)
    (hbinds : ∀ call ∈ later, ∀ lease now, call.binds = some (runId, lease, now) →
      lease.sha256 = digest → expiry ≤ now) :
    ∀ value, run (after (before ++ later)) runId = .ok value → value.status = .leased →
      value.leaseSha256 = digest → value.leaseExpiresAt ≤ expiry := by
  refine leased_invariant hdistinct hminted (fun value hrun _ _ => hstart value hrun) ?_
  intro call hcall value updated hid hleased hdigest hupdated hedit hexpiry
  cases hedit with
  | bound hdrives =>
    have hlate := hbinds _ hcall _ _ (by rw [← hid]; rfl) (hdrives.digest.symm.trans hdigest)
    have hearly := hdrives.unexpired
    omega
  | spent | unprotected | incidentSpent | paused => exact hexpiry
  | frozen | fenced | recovered => cases hupdated
  | thawed hstatus | skipped hstatus | rerun hstatus =>
    rw [hleased] at hstatus
    cases hstatus

end

theorem ClaimedLease.edit {claimedAt active value updated}
    (h : ClaimedLease claimedAt active value) (hactive : 0 ≤ active)
    (hleased : value.status = .leased) (hupdated : updated.status = .leased)
    (hedit : RunEdit call value updated) : ClaimedLease claimedAt active updated := by
  cases hedit with
  | bound hdrives => exact h.bound hactive hdrives _
  | spent hdrives hseconds =>
    refine ⟨h.extended, ?_, h.first⟩
    have hunspent := h.unspent
    simp only [spentForm]
    omega
  | unprotected => exact ⟨h.extended, h.unspent, h.first⟩
  | incidentSpent hlive =>
    rw [hleased] at hlive
    cases hlive
  | paused hstatus | thawed hstatus | skipped hstatus | rerun hstatus =>
    rw [hleased] at hstatus
    cases hstatus
  | frozen | fenced | recovered => cases hupdated

/-- A claim adds exactly the run it returns, leased under the token it drew. -/
theorem claim_run_of_ok {next long claimed}
    (h : claim state now keyFingerprint long entropy = .ok (next, some claimed)) :
    next.runs = state.runs ++ [claimed.run] ∧ ∃ id token due, newToken entropy = .ok token ∧
      claimed.run = leasedForm id token due now keyFingerprint := by
  obtain ⟨-, swept, hswept, hclaimed⟩ := claimed_of_ok h
  have htold := sweep_onlyTells hswept
  cases hclaimed with
  | requested _ _ _ htoken _ hrun =>
    refine ⟨?_, _, _, _, htoken, hrun⟩
    rw [replaceRoutine_runs, startRun, htold.runs, hrun]
  | fired _ _ _ hreport htoken _ hrun =>
    have hreported := htold.trans ((onlyTells_replaceRoutine _ _).trans hreport.onlyTells)
    refine ⟨?_, _, _, _, htoken, hrun⟩
    rw [replaceRoutine_runs, startRun, hreported.runs, hrun]

theorem claimedLease_of_leasedForm (id token due now keyFingerprint) :
    ClaimedLease now (activeSeconds (runUnits due)) (leasedForm id token due now keyFingerprint) := by
  have hactive : 0 ≤ activeSeconds (runUnits due) := activeSeconds_nonneg (Int.natCast_nonneg _)
  refine ⟨?_, le_rfl, fun _ => le_rfl⟩
  have hexpires : (leasedForm id token due now keyFingerprint).leaseExpiresAt = now + 900 := rfl
  rw [hexpires]
  omega

/-- However other transitions follow a claim, its lease stays within its bounds as long as it is the
run's. -/
theorem claimedLease_after {long next claimed} (hdistinct : DistinctTokens
      (before ++ [⟨.claim now keyFingerprint long, entropy⟩] ++ later))
    (h : claim (after before) now keyFingerprint long entropy = .ok (next, some claimed)) :
    ∀ value, run (after (before ++ [⟨.claim now keyFingerprint long, entropy⟩] ++ later))
        claimed.run.runId = .ok value → value.status = .leased →
      value.leaseSha256 = claimed.run.leaseSha256 → ClaimedLease now claimed.run.activeSecondsLeft value := by
  obtain ⟨hruns, id, token, due, htoken, hrun⟩ := claim_run_of_ok h
  have hactive : 0 ≤ claimed.run.activeSecondsLeft := by
    rw [hrun]
    exact activeSeconds_nonneg (Int.natCast_nonneg _)
  have hdrawn : Call.mintedToken ⟨.claim now keyFingerprint long, entropy⟩ = some token :=
    mintedToken_of_newToken htoken
  have hdigest : claimed.run.leaseSha256 = leaseSha256 token := by rw [hrun]; rfl
  have happly : apply (after before) ⟨.claim now keyFingerprint long, entropy⟩ = .ok next := map_eq_ok.mpr ⟨_, h, rfl⟩
  have hafter : after (before ++ [⟨.claim now keyFingerprint long, entropy⟩]) = next := by
    unfold after at happly ⊢
    rw [runFrom_append, runFrom_cons, runFrom_nil, step_ok happly]
  refine leased_invariant hdistinct ⟨token, ?_, hdigest⟩ ?_ ?_
  · rw [mintedTokens_snoc, hdrawn]
    exact mem_append_right _ (by simp)
  · intro value hfound hleased hsame
    rw [hafter, run_eq_ok, hruns, find?_append] at hfound
    rcases Option.or_eq_some_iff.mp hfound with hold | ⟨-, hnew⟩
    · have hcurrent : Current (after before) claimed.run.runId (leaseSha256 token) :=
        ⟨value, run_eq_ok.mpr hold, hleased, hsame.trans hdigest⟩
      obtain ⟨other, hother, heq⟩ := minted_of_current before _ _ hcurrent
      exact absurd heq.symm (hdistinct.left.last hdrawn hother)
    · rw [mem_singleton.mp (find?_key_mem hnew).1, hrun]
      exact claimedLease_of_leasedForm id token due now keyFingerprint
  · intro call _ value updated _ hleased _ hupdated hedit hbounded
    exact hbounded.edit hactive hleased hupdated hedit

def Refused (state : TeamRoutines) (call : Call) : Prop :=
  ∃ refusal, apply state call = .error refusal

theorem refused_iff : Refused state call ↔ (apply state call).isOk = false := by
  unfold Refused
  cases apply state call with
  | ok next => simp [Except.isOk, Except.toBool]
  | error refusal => simp [Except.isOk, Except.toBool]

instance {state : TeamRoutines} {call : Call} : Decidable (Refused state call) :=
  decidable_of_iff _ refused_iff.symm

theorem refused_of_not_drives {lease} (hpresents : call.presents = some (runId, lease, now))
    (h : ∀ value, run state runId = .ok value → ¬Drives value lease now) : Refused state call := by
  cases happly : apply state call with
  | error refusal => exact ⟨refusal, happly⟩
  | ok next =>
    obtain ⟨value, hrun, hdrives⟩ := drives_of_presents hpresents happly
    exact absurd hdrives (h value hrun)

/-- A lease token that stopped being its run's current one never drives it again. Nor does an expired
one at any instant from its expiry on, as long as no bind steps back before that expiry. And no bind
extends a claimed lease past its first window, the run's active time, and the margin. -/
theorem lost_leases_never_drive (calls : List Call) (hfresh : FreshTokens calls) (hdistinct : CollisionFree calls) :
    (∀ before between later runId token, calls = before ++ between ++ later →
      Current (after before) runId (leaseSha256 token) →
      ¬Current (after (before ++ between)) runId (leaseSha256 token) →
      ∀ call lease now, call.presents = some (runId, lease, now) →
        lease.sha256 = leaseSha256 token → Refused (after calls) call) ∧
    (∀ before later runId token value, calls = before ++ later →
      run (after before) runId = .ok value → value.status = .leased →
      value.leaseSha256 = leaseSha256 token →
      (∀ call ∈ later, ∀ lease now, call.binds = some (runId, lease, now) →
        lease.sha256 = leaseSha256 token → value.leaseExpiresAt ≤ now) →
      ∀ call lease now, call.presents = some (runId, lease, now) →
        lease.sha256 = leaseSha256 token → value.leaseExpiresAt ≤ now → Refused (after calls) call) ∧
    ∀ before later now keyFingerprint long entropy next claimed,
      calls = before ++ [⟨.claim now keyFingerprint long, entropy⟩] ++ later →
      claim (after before) now keyFingerprint long entropy = .ok (next, some claimed) →
      ∀ value, run (after calls) claimed.run.runId = .ok value → value.status = .leased →
        value.leaseSha256 = claimed.run.leaseSha256 →
          value.leaseExpiresAt ≤ now + 900 + claimed.run.activeSecondsLeft + 300 := by
  refine ⟨?_, ?_, ?_⟩
  · rintro before between later runId token rfl hheld hlost call lease now hpresents hlease
    refine refused_of_not_drives hpresents fun value hrun hdrives => ?_
    obtain ⟨drawn, hdrawn, hsame⟩ := minted_of_current before _ _ hheld
    have hminted := mintedTokens_append before between hdrawn
    refine lost_stays_lost ⟨hfresh, hdistinct⟩ ⟨drawn, hminted, hsame⟩ hlost ?_
    exact ⟨value, hrun, hdrives.status, hdrives.digest.trans hlease⟩
  · rintro before later runId token value rfl hrun hleased hdigest hbinds call lease now hpresents
      hlease hexpired
    refine refused_of_not_drives hpresents fun found hfound hdrives => ?_
    have hminted := minted_of_current before runId _ ⟨value, hrun, hleased, hdigest⟩
    have hstart : ∀ item, run (after before) runId = .ok item →
        item.leaseExpiresAt ≤ value.leaseExpiresAt := by
      intro item hitem
      obtain rfl := Except.ok.inj (hitem.symm.trans hrun)
      exact le_rfl
    have hexpiry := expiry_stays ⟨hfresh, hdistinct⟩ hminted hstart hbinds found hfound
      hdrives.status (hdrives.digest.trans hlease)
    have hunexpired := hdrives.unexpired
    omega
  · rintro before later now keyFingerprint long entropy next claimed rfl hclaim value hrun hleased
      hdigest
    exact (claimedLease_after ⟨hfresh, hdistinct⟩ hclaim value hrun hleased hdigest).extended

end

def fencedCalls : List Call :=
  [createMinute, ⟨.claim 1000 zeros true, draw 2⟩,
    ⟨.bindGeneration (drawnId 2) (drawnLease 2) 1001 zeros, draw 3⟩,
    ⟨.fence (drawnId 2) (drawnLease 2) 1002, draw 4⟩]

/-- A claimed run whose lease expires at 1900. -/
def claimedCalls : List Call := [createMinute, ⟨.claim 1000 zeros true, draw 2⟩]

def lateSpend : Call := ⟨.spend (drawnId 2) (drawnLease 2) 1900 (0, 0), draw 3⟩

/-- A bind one second before it. -/
def earlyBind : Call := ⟨.bindGeneration (drawnId 2) (drawnLease 2) 1899 zeros, draw 4⟩

attribute [local instance] utcPlatform

theorem lost_leases_never_drive_fenced :
    FreshTokens fencedCalls ∧ CollisionFree fencedCalls ∧
      Current (after (fencedCalls.take 3)) (drawnId 2) (leaseSha256 (drawnToken 2)) ∧
      Refused (after fencedCalls) ⟨.spend (drawnId 2) (drawnLease 2) 1003 (1, 1000), draw 5⟩ := by
  have hfresh : FreshTokens fencedCalls := by
    unfold FreshTokens
    decide
  have hdistinct : CollisionFree fencedCalls := by
    unfold CollisionFree
    decide +kernel
  have hheld : Current (after (fencedCalls.take 3)) (drawnId 2) (leaseSha256 (drawnToken 2)) := by
    unfold fencedCalls
    rw [take_succ_cons, after_createMinute]
    decide +kernel
  have hlost : ¬Current (after (fencedCalls.take 3 ++ fencedCalls.drop 3)) (drawnId 2)
      (leaseSha256 (drawnToken 2)) := by
    rw [take_append_drop]
    unfold fencedCalls
    rw [after_createMinute]
    decide +kernel
  refine ⟨hfresh, hdistinct, hheld, ?_⟩
  exact (lost_leases_never_drive fencedCalls hfresh hdistinct).1 (fencedCalls.take 3)
    (fencedCalls.drop 3) [] (drawnId 2) (drawnToken 2) rfl hheld hlost _ (drawnLease 2) 1003 rfl rfl

/-- A lease that expired at 1900 drives its run at 1950: the clock reached 1900, stepped back, and a
bind at 1899 extended the lease. -/
theorem expired_lease_drives_after_step_back :
    ¬∀ (before : List Call) (reached : Call) (later : List Call) (runId token : String) (value : Run)
      (moment : Int), FreshTokens (before ++ [reached] ++ later) →
      CollisionFree (before ++ [reached] ++ later) →
      run (after (before ++ [reached])) runId = .ok value → value.status = .leased →
      value.leaseSha256 = leaseSha256 token → reached.now = some moment →
      value.leaseExpiresAt ≤ moment →
      ∀ call lease now, call.presents = some (runId, lease, now) →
        lease.sha256 = leaseSha256 token → moment < now → Refused (after (before ++ [reached] ++ later)) call := by
  intro h
  have hheld : ((run (after (claimedCalls ++ [lateSpend])) (drawnId 2)).toOption.any fun value =>
      value.status == .leased && value.leaseSha256 == leaseSha256 (drawnToken 2) &&
        value.leaseExpiresAt ≤ 1900) = true := by
    unfold claimedCalls
    rw [cons_append, after_createMinute]
    decide +kernel
  have hfresh : FreshTokens (claimedCalls ++ [lateSpend] ++ [earlyBind]) := by
    unfold FreshTokens
    decide
  have hdistinct : CollisionFree (claimedCalls ++ [lateSpend] ++ [earlyBind]) := by
    unfold CollisionFree
    decide +kernel
  have haccepted : ¬Refused (after (claimedCalls ++ [lateSpend] ++ [earlyBind]))
      ⟨.spend (drawnId 2) (drawnLease 2) 1950 (1, 1000), draw 5⟩ := by
    unfold claimedCalls
    rw [cons_append, cons_append, after_createMinute]
    decide +kernel
  cases hrun : run (after (claimedCalls ++ [lateSpend])) (drawnId 2) with
  | error refusal =>
    rw [hrun] at hheld
    cases hheld
  | ok value =>
    rw [hrun] at hheld
    simp only [Except.toOption, Option.any_some, Bool.and_eq_true, beq_iff_eq, decide_eq_true_eq] at hheld
    obtain ⟨⟨hleased, hdigest⟩, hexpired⟩ := hheld
    exact haccepted (h claimedCalls lateSpend [earlyBind] (drawnId 2) (drawnToken 2) value 1900
      hfresh hdistinct hrun hleased hdigest rfl hexpired _ (drawnLease 2) 1950 rfl rfl (by decide))

end ShimpzTeams.Routines
