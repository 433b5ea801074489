import ShimpzTeams.Authority.Verifier

/-!
# One request under one key, and used once

Evidence names exactly the request it was given for, under a key that was pinned
while its verification ran, or published for Routines. The pin is taken from the
published key, rotated by a request its own key verified, or forgotten. As long as
nothing that entered the guard read later than an assertion expires, its id is still
held when it is presented again.
-/

namespace ShimpzTeams.Authority

open StrictJson Protocol Library

section

variable {assertionId : String} {now expiresAt : Int} {kind : Kind} {header : List (List UInt8)}
  {key : PublicKey} {claims : Value} {request : Request} {rest : Multiset Task}

theorem fromRaw_toList (key) : PublicKey.fromRaw key.raw.toList = some key := by
  unfold PublicKey.fromRaw
  rw [dif_pos key.raw.length_toList]
  rfl

/-- A pinned key is read back from the document it is written as. -/
theorem fromPem_toPem (key) : PublicKey.fromPem key.toPem = some key := by
  have hdecoded := Base64.decode_encode false (spkiPrefix ++ key.raw.toList)
  generalize hbody : Base64.encode (spkiPrefix ++ key.raw.toList) = body at hdecoded
  have hbegin : (pemBegin ++ String.ofList body ++ pemEnd).toList.dropPrefix? pemBegin.toList =
      some (body ++ pemEnd.toList) := by
    rw [String.toList_append, String.toList_append, String.toList_ofList, List.append_assoc]
    exact List.dropPrefix?_append_of_beq _ (beq_self_eq_true _)
  have hend : (body ++ pemEnd.toList).dropSuffix? pemEnd.toList = some body :=
    List.dropSuffix?_eq_some_iff.mpr ⟨_, rfl, beq_self_eq_true _⟩
  have hraw : (spkiPrefix ++ key.raw.toList).dropPrefix? spkiPrefix = some key.raw.toList :=
    List.dropPrefix?_append_of_beq _ (beq_self_eq_true _)
  unfold PublicKey.fromPem PublicKey.toPem
  rw [hbody, fromUtf8_utf8]
  simp only [Option.bind_eq_bind, Option.bind_some, hbegin, hend, hdecoded, hraw, fromRaw_toList, hbody,
    ne_eq, not_true_eq_false, if_false]

theorem readPin_toPem (key) : readPin (.held key.toPem) = .ok (some key) := by
  rw [readPin, fromPem_toPem]

variable {guard : ReplayGuard}

/-- An id that is not held after the expired ones are dropped is entered, when there is room. -/
theorem consume_fresh (expiresAt) {seen} (hseen : (guard.seen.retain fun _ expiry => now ≤ expiry) = seen)
    (hnone : seen.lookup assertionId = none) (hroom : seen.entries.length < guard.capacity) :
    guard.consume assertionId expiresAt now = (.ok (), { guard with seen := seen.insert assertionId expiresAt }) := by
  unfold ReplayGuard.consume
  rw [hseen, if_neg (by simp [hnone]), if_neg (Nat.not_le.mpr hroom)]

theorem Kind.nodup_header (kind : Kind) : (kind.header.map Prod.fst).Nodup := by
  cases kind <;> decide

theorem Kind.eq_of_headerIs {other decoded}
    (h : headerIs decoded kind.header = true) (hother : headerIs decoded other.header = true) : kind = other := by
  obtain ⟨members, hobject, hmembers⟩ := (Option.any_eq_true _ _).mp h
  obtain ⟨found, hfound, hsame⟩ := (Option.any_eq_true _ _).mp hother
  obtain rfl := Option.some.inj (hobject.symm.trans hfound)
  have hkid : ∀ kind : Kind, (members.length == kind.header.length &&
      kind.header.all fun entry => string (field members entry.1) == some entry.2) = true →
      string (field members "kid") = some (Kind.casesOn kind Supervisor.assertionKeyId Supervisor.routineKeyId) := by
    intro kind hkind
    rw [Bool.and_eq_true, List.all_eq_true] at hkind
    cases kind with
    | supervisor => exact beq_iff_eq.mp (hkind.2 ("kid", _) (by decide))
    | routine => exact beq_iff_eq.mp (hkind.2 ("kid", _) (by decide))
  have hequal := Option.some.inj ((hkid kind hmembers).symm.trans (hkid other hsame))
  cases kind <;> cases other <;> first | rfl | exact absurd hequal (by decide)

theorem Said.claims_injective {said other : Supervisor.Said} {audience}
    (h : said.claims audience = other.claims audience) : said = other := by
  have hfield : ∀ name, fieldOf (said.claims audience) name = fieldOf (other.claims audience) name :=
    fun name => by rw [h]
  have htext : ∀ {left right : String}, text left = text right → left = right := fun heq => Value.string.inj heq
  have hint : ∀ {left right : Int}, int left = int right → left = right :=
    fun heq => Number.int.inj (Value.number.inj heq)
  obtain ⟨hmodel, hdecision, hassurance⟩ := get_optional said audience
  rw [h, (get_optional other audience).1] at hmodel
  rw [h, (get_optional other audience).2.1] at hdecision
  rw [h, (get_optional other audience).2.2] at hassurance
  have hbody : said.body = other.body := hfield "body"
  cases said
  cases other
  simp only [Supervisor.Said.mk.injEq]
  exact ⟨htext (hfield "sub"), htext (hfield "authority"), htext (hfield "authority_sha256"),
    htext (hfield "jti"), hint (hfield "iat"), hint (hfield "exp"), htext (hfield "method"),
    htext (hfield "path"), hbody, hmodel.symm, hdecision.symm, hassurance.symm⟩

section

variable [Platform] [SignatureScheme]

def Unforgeable (signed : List UInt8 → Option (Vector UInt8 32 × List UInt8)) : Prop :=
  ∀ key message signature, SignatureScheme.verifies key message signature = true →
    signed signature = some (key, message)

def signatureOf (header : List (List UInt8)) : Option (List UInt8) :=
  match oneAssertion header with
  | .ok encoded =>
    match encoded.toList.splitOn '.' with
    | [_, _, signature] => decodeBase64url signature
    | _ => none
  | .error _ => none

/-- Evidence is exact: one assertion was sent, it is the canonical text of claims that name exactly the
request, and its signature verifies over them under the key. -/
def Given.Exact (given : Given) : Prop :=
  ∃ (said : Supervisor.Said) (signature : List UInt8),
    given.header = bearer (assertionText given.kind.header given.claims signature) ∧
      signatureOf given.header = some signature ∧
      given.claims = said.claims given.kind.audience ∧
      given.key.verifies (covered given.kind.header given.claims) signature = true ∧
      Names said (given.kind.binding given.request) given.now

theorem claimsOf_eq_ok (h : claimsOf kind header key = .ok claims) :
    ∃ (said : Supervisor.Said) (signature : List UInt8), header = bearer (assertionText kind.header claims signature) ∧
      signatureOf header = some signature ∧ claims = said.claims kind.audience ∧ said.Closed ∧
      key.verifies (covered kind.header claims) signature = true ∧ Readable kind.header kind.audience claims := by
  obtain ⟨encoded, hheader, hclaims⟩ := bind_eq_ok.mp h
  obtain ⟨said, signature, hsaid, hclosed, rfl, hverifies, hreadable⟩ := verifiedClaims_eq_ok kind.nodup_header hclaims
  refine ⟨said, signature, bearer_of_oneAssertion hheader, ?_, hsaid, hclosed, hverifies, hreadable⟩
  rw [signatureOf, hheader]
  dsimp only
  rw [splitOn_assertionText]
  exact decodeBase64url_eq_some.mpr rfl

/-- What the last section of a verification gives is exact and readable. -/
theorem exact_of_claimsOf (evidence) (hclaims : claimsOf kind header key = .ok claims)
    (hbound : bound claims (kind.binding request) now = .ok (assertionId, expiresAt)) :
    Given.Exact ⟨kind, header, request, now, key, claims, evidence⟩ ∧ Readable kind.header kind.audience claims := by
  obtain ⟨said, signature, hheader, hsignature, rfl, hclosed, hverifies, hreadable⟩ := claimsOf_eq_ok hclaims
  have hnames := (names_of_binds hclosed (binds_of_bound hbound)).1
  exact ⟨⟨said, signature, hheader, hsignature, rfl, hverifies, hnames⟩, hreadable⟩

structure SameRequest (left right : RequestBinding) : Prop where
  method : left.method = right.method
  path : left.path = right.path
  body : left.body = right.body
  model : left.model = right.model
  decision : left.decision = right.decision
  assurance : left.assurance = right.assurance

theorem Given.Exact.same {signed}
    (hsigned : Unforgeable signed) {given other : Given} (h : given.Exact) (hother : other.Exact)
    (hreadable : Readable given.kind.header given.kind.audience given.claims)
    (hreadableOther : Readable other.kind.header other.kind.audience other.claims)
    (hsignature : signatureOf given.header = signatureOf other.header) :
    given.kind = other.kind ∧ given.key = other.key ∧ given.header = other.header ∧
      SameRequest (given.kind.binding given.request) (other.kind.binding other.request) := by
  obtain ⟨said, signature, hheader, hsig, hclaims, hverifies, hnames⟩ := h
  obtain ⟨saidOther, signatureOther, hheaderOther, hsigOther, hclaimsOther, hverifiesOther, hnamesOther⟩ := hother
  obtain rfl : signature = signatureOther := Option.some.inj (hsig.symm.trans (hsignature.trans hsigOther))
  have hmessage := Option.some.inj ((hsigned _ _ _ hverifies).symm.trans (hsigned _ _ _ hverifiesOther))
  obtain ⟨hkey, hcovered⟩ := Prod.mk.inj hmessage
  obtain ⟨hheads, hbodies⟩ := covered_injective hcovered
  obtain ⟨⟨decoded, hdecoded, his⟩, untrusted, huntrusted, hcanonical⟩ := hreadable
  obtain ⟨⟨decodedOther, hdecodedOther, hisOther⟩, untrustedOther, huntrustedOther, hcanonicalOther⟩ := hreadableOther
  rw [hheads, hdecodedOther] at hdecoded
  cases hdecoded
  have hkind := Kind.eq_of_headerIs his hisOther
  rw [hbodies, huntrustedOther] at huntrusted
  cases huntrusted
  rw [hkind, hcanonicalOther] at hcanonical
  have hsame : other.claims = given.claims := Except.ok.inj hcanonical
  refine ⟨hkind, ?_, by rw [hheader, hheaderOther, hkind, hsame], ?_⟩
  · cases hgiven : given.key
    cases hfound : other.key
    rw [hgiven, hfound] at hkey
    exact congrArg PublicKey.mk hkey
  · rw [hclaims, hclaimsOther, hkind] at hsame
    obtain rfl := Said.claims_injective hsame
    exact ⟨hnames.method.symm.trans hnamesOther.method, hnames.path.symm.trans hnamesOther.path,
      hnames.body.symm.trans hnamesOther.body, hnames.model.symm.trans hnamesOther.model,
      hnames.decision.symm.trans hnamesOther.decision, hnames.assurance.symm.trans hnamesOther.assurance⟩

end

section

def World.Holds (world : World) : Kind → PublicKey → Prop
  | .supervisor, key => readPin world.pinFile = .ok (some key)
  | .routine, key => published world.routineFile = .ok key

/-- At some moment of a run a verification had just read the key it verifies under, and that key was
held. -/
def ReadAt (past : List World) (kind : Kind) (header : List (List UInt8)) (request : Request) (now : Int)
    (key : PublicKey) : Prop :=
  ∃ moment ∈ past, Task.keyed kind header request now key ∈ moment.tasks ∧ moment.Holds kind key

theorem ReadAt.later {past} (h : ReadAt past kind header request now key) (next) :
    ReadAt (past ++ [next]) kind header request now key := by
  obtain ⟨moment, hmoment, hread⟩ := h
  exact ⟨moment, List.mem_append_left _ hmoment, hread⟩

end

variable {evidence : Evidence} {signedBy : String}

section

variable [Platform]

theorem rotate_eq_some {pin body new} (h : rotate pin body signedBy = .ok (some new)) :
    rotationKey body = some new ∧ ∃ pinned, readPin pin = .ok (some pinned) ∧ pinned.fingerprint = signedBy := by
  unfold rotate at h
  cases hkey : rotationKey body with
  | none =>
    rw [hkey] at h
    cases h
  | some found =>
    rw [hkey] at h
    dsimp only at h
    split at h
    · cases h
    · cases h
    · rename_i pinned hpinned
      split_ifs at h with hsame hsigner
      · cases h
      · obtain rfl := Option.some.inj (Except.ok.inj h)
        exact ⟨rfl, pinned, hpinned, not_not.mp hsigner⟩

/-- The signer that a request's evidence names is the key that verified it. -/
theorem signedBy_of_evidenceOf
    (h : evidenceOf kind key claims = some evidence) (hsigned : evidence.signedBy = some signedBy) :
    kind = .supervisor ∧ key.fingerprint = signedBy := by
  cases kind with
  | supervisor =>
    obtain ⟨supervisorId, -, h⟩ := Option.bind_eq_some_iff.mp h
    obtain ⟨authority, -, h⟩ := Option.bind_eq_some_iff.mp h
    obtain ⟨authoritySha256, -, h⟩ := Option.bind_eq_some_iff.mp h
    cases h
    exact ⟨rfl, Option.some.inj hsigned⟩
  | routine =>
    obtain ⟨leaseSha256, -, h⟩ := Option.bind_eq_some_iff.mp h
    cases h
    cases hsigned

end

section

variable [Platform] [SignatureScheme] {world next start : World} {past : List World} {event : Event}

/-- Everything a run has shown of one verification that gave evidence. -/
structure Given.Shown (past : List World) (given : Given) : Prop where
  exact : given.Exact
  readable : Readable given.kind.header given.kind.audience given.claims
  read : ReadAt past given.kind given.header given.request given.now given.key
  evidence : evidenceOf given.kind given.key given.claims = some given.evidence

/-- What holds of every verification under way and of all evidence given. -/
structure Verifying (past : List World) (world : World) : Prop where
  keyed : ∀ kind header request now key, Task.keyed kind header request now key ∈ world.tasks →
    ReadAt past kind header request now key
  serving : ∀ given, Task.serving given ∈ world.tasks → given ∈ world.given
  given : ∀ given ∈ world.given, given.Shown past

theorem Given.Shown.later {given : Given} (h : given.Shown past) (next) : given.Shown (past ++ [next]) :=
  ⟨h.exact, h.readable, h.read.later next, h.evidence⟩

/-- What a task that a section adds must show: the key it holds was read, or what it serves is given. -/
def Task.Justified (past : List World) (given : List Given) : Task → Prop
  | .keyed kind header request now key => ReadAt past kind header request now key
  | .serving found => found ∈ given
  | _ => True

theorem Verifying.adds {given} (h : Verifying past world)
    (hgiven : next.given = world.given ++ given) (hshown : ∀ found ∈ given, found.Shown (past ++ [next]))
    (htasks : ∀ task ∈ next.tasks, task ∈ world.tasks ∨ task.Justified (past ++ [next]) given) :
    Verifying (past ++ [next]) next where
  keyed kind header request now key hmem := by
    rcases htasks _ hmem with hold | hnew
    · exact (h.keyed kind header request now key hold).later next
    · exact hnew
  serving found hmem := by
    rw [hgiven, List.mem_append]
    exact (htasks _ hmem).imp_left (h.serving found)
  given found hmem := by
    rw [hgiven] at hmem
    rcases List.mem_append.mp hmem with hold | hnew
    · exact (h.given found hold).later next
    · exact hshown found hnew

/-- A section that gives nothing. -/
theorem Verifying.quiet (h : Verifying past world) (hgiven : next.given = world.given)
    (htasks : ∀ task ∈ next.tasks, task ∈ world.tasks ∨ task.Justified (past ++ [next]) []) :
    Verifying (past ++ [next]) next :=
  h.adds (hgiven.trans (List.append_nil _).symm) (List.forall_mem_nil _) htasks

theorem Verifying.read (h : Verifying past world) {task}
    (htasks : world.tasks = task ::ₘ rest) (hgiven : next.given = world.given)
    (hnext : next.tasks = .keyed kind header request now key ::ₘ rest)
    (hholds : next.Holds kind key) : Verifying (past ++ [next]) next := by
  refine h.quiet hgiven fun other hmem => ?_
  rw [hnext] at hmem
  rcases Multiset.mem_cons.mp hmem with rfl | hmem
  · exact .inr ⟨next, List.mem_append_right _ (List.mem_singleton_self _), by simp [hnext], hholds⟩
  · exact .inl (by rw [htasks]; exact Multiset.mem_cons_of_mem hmem)

theorem Verifying.verify (h : Verifying past world) (htasks : world.tasks = .keyed kind header request now key ::ₘ rest)
    (hnext : Verified world kind header request now key rest next) : Verifying (past ++ [next]) next := by
  have hrest : ∀ task ∈ rest, task ∈ world.tasks := fun task hmem => by
    rw [htasks]
    exact Multiset.mem_cons_of_mem hmem
  cases hnext with
  | refused hafter _ _ hgiven | denied hafter _ _ _ hgiven =>
    exact h.quiet hgiven fun task hmem => .inl (hrest task (hafter ▸ hmem))
  | @admitted claims assertionId expiresAt given hafter hclaims hbound _ _ hgiven hnew =>
    have hread := h.keyed kind header request now key (by rw [htasks]; exact Multiset.mem_cons_self _ _)
    refine h.adds hgiven (fun found hmem => ?_) fun task hmem => ?_
    · rcases hnew with rfl | ⟨evidence, rfl, hevidence⟩
      · cases hmem
      · obtain rfl := List.mem_singleton.mp hmem
        obtain ⟨hexact, hreadable⟩ := exact_of_claimsOf evidence hclaims hbound
        exact ⟨hexact, hreadable, hread.later next, hevidence⟩
    · rw [hafter] at hmem
      rcases Multiset.mem_add.mp hmem with hmem | hmem
      · obtain ⟨served, hserved, rfl⟩ := List.mem_map.mp (Multiset.mem_coe.mp hmem)
        exact .inr hserved
      · exact .inl (hrest task hmem)

theorem Verifying.step (h : Verifying past world) (hstep : Step world event next) :
    Verifying (past ++ [next]) next := by
  have hrest : ∀ {task : Task} {rest : Multiset Task}, world.tasks = task ::ₘ rest →
      ∀ other ∈ rest, other ∈ world.tasks := fun htasks other hmem => by
    rw [htasks]
    exact Multiset.mem_cons_of_mem hmem
  cases hstep with
  | tick | publish | forget => exact h.quiet rfl fun _ hmem => .inl hmem
  | arrive kind header request =>
    refine h.quiet rfl fun task hmem => ?_
    rcases Multiset.mem_cons.mp hmem with rfl | hmem
    · exact .inr trivial
    · exact .inl hmem
  | readClock htasks =>
    refine h.quiet rfl fun task hmem => ?_
    rcases Multiset.mem_cons.mp hmem with rfl | hmem
    · exact .inr trivial
    · exact .inl (hrest htasks task hmem)
  | refuse htasks | pinFails htasks | rotate htasks =>
    exact h.quiet rfl fun task hmem => .inl (hrest htasks task hmem)
  | readPinned htasks hheader hpin => exact h.read htasks rfl rfl hpin
  | pin htasks hheader hpin hpublished => exact h.read htasks rfl rfl (readPin_toPem _)
  | readRoutine htasks hpublished => exact h.read htasks rfl rfl hpublished
  | verify htasks => exact h.verify htasks (verified _ _ _ _ _ _ _)

theorem Verifying.runs (hstart : Started start) (hruns : Runs start past world) : Verifying past world := by
  induction hruns with
  | refl => exact ⟨by simp [hstart.tasks], by simp [hstart.tasks], by simp [hstart.given]⟩
  | step hruns hstep ih => exact ih.step hstep

inductive PinChange (world : World) (event : Event) (next : World) : Prop
  | kept (hnext : readPin next.pinFile = readPin world.pinFile)
  | pinned {key : PublicKey} (hevent : event = .pinned) (hnone : readPin world.pinFile = .ok none)
      (hpublished : published world.supervisorFile = .ok key) (hnext : readPin next.pinFile = .ok (some key))
  /-- From the key that verified a rotation to the key the rotation names. -/
  | rotated {given new} (hevent : event = .rotated given) (hgiven : given ∈ world.given)
      (hkind : given.kind = .supervisor) (hpinned : readPin world.pinFile = .ok (some given.key))
      (hbody : given.request.captured.document.bind rotationKey = some new)
      (hnext : readPin next.pinFile = .ok (some new))
  | forgotten (hevent : event = .forgotten) (hnext : readPin next.pinFile = .ok none)

theorem Verifying.pinChange (h : Verifying past world)
    (hprints : Function.Injective PublicKey.fingerprint) (hstep : Step world event next) :
    PinChange world event next := by
  cases hstep with
  | tick | publish | arrive | readClock | refuse | readPinned | readRoutine => exact .kept rfl
  | verify htasks => exact .kept (congrArg readPin (verify_pinFile _ _ _ _ _ _ _))
  | pin htasks hheader hpin hpublished => exact .pinned rfl hpin hpublished (readPin_toPem _)
  | pinFails htasks hheader hpin hpublished landed =>
    cases landed with
    | true => exact .pinned rfl hpin hpublished (readPin_toPem _)
    | false => exact .kept rfl
  | @rotate given body signedBy new rest htasks hbody hsigned hrotate landed =>
    cases landed with
    | false => exact .kept rfl
    | true =>
      have hgiven := h.serving given (by rw [htasks]; exact Multiset.mem_cons_self _ _)
      obtain ⟨hkind, hsigner⟩ := signedBy_of_evidenceOf (h.given given hgiven).evidence hsigned
      obtain ⟨hnew, pinned, hpinned, hfingerprint⟩ := rotate_eq_some hrotate
      -- only the key that verified the request has the fingerprint it is signed by
      obtain rfl := hprints (hfingerprint.trans hsigner.symm)
      exact .rotated rfl hgiven hkind hpinned (Option.bind_eq_some_iff.mpr ⟨body, hbody, hnew⟩)
        (readPin_toPem new)
  | forget landed =>
    cases landed with
    | true => exact .forgotten rfl rfl
    | false => exact .kept rfl

/-- A request that arrives while a key is pinned comes to hold that key and the reading of the clock. -/
theorem Runs.present (hruns : Runs start past world) {encoded} (request)
    (hheader : oneAssertion header = .ok encoded) (hpin : readPin world.pinFile = .ok (some key))
    (hclock : world.clock = now) : ∃ past, Runs start past
      { world with tasks := .keyed .supervisor header request now key ::ₘ world.tasks } := by
  subst hclock
  exact ⟨_, ((hruns.step (.arrive .supervisor header request)).step (.readClock rfl)).step
    (.readPinned rfl hheader hpin)⟩

/-- A verification that is accepted and whose request is then served. -/
theorem Runs.accept (hruns : Runs start past { world with tasks := .keyed kind header request now key ::ₘ rest })
    (hclaims : claimsOf kind header key = .ok claims)
    (hbound : bound claims (kind.binding request) now = .ok (assertionId, expiresAt))
    (hconsume : world.guard.consume assertionId expiresAt now = (.ok (), guard))
    (hevidence : evidenceOf kind key claims = some evidence) : ∃ past, Runs start past { world with
      guard := guard
      tasks := rest
      entered := world.entered ++ [⟨assertionId, expiresAt, now, true⟩]
      given := world.given ++ [⟨kind, header, request, now, key, claims, evidence⟩] } := by
  have hnext : World.verify { world with tasks := .keyed kind header request now key ::ₘ rest } kind header
      request now key rest =
      { world with guard := guard
                   tasks := .serving ⟨kind, header, request, now, key, claims, evidence⟩ ::ₘ rest
                   entered := world.entered ++ [⟨assertionId, expiresAt, now, true⟩]
                   given := world.given ++ [⟨kind, header, request, now, key, claims, evidence⟩] } := by
    unfold World.verify
    simp only [hclaims, hbound, hconsume, hevidence]
  have hverified := hruns.step (.verify rfl)
  rw [hnext] at hverified
  exact ⟨_, hverified.step (.refuse rfl)⟩

end

variable {issuedAt : Int}

/-- A hash that keeps the first 32 bytes, so that keys differ in their fingerprints. -/
@[reducible]
def copyingPlatform : Platform :=
  { Routines.utcPlatform with sha256 := fun raw => Vector.ofFn fun index : Fin 32 => raw.getD index 0 }

@[reducible]
def plainScheme : SignatureScheme := ⟨fun key message signature => signature == key.toList ++ message⟩

attribute [local instance] copyingPlatform plainScheme

theorem hexDigit_injective : ∀ first < 16, ∀ second < 16, hexDigit first = hexDigit second → first = second := by
  decide

theorem hex_injective : Function.Injective hex := by
  intro left right h
  have hlist := String.ofList_injective h
  clear h
  induction left generalizing right with
  | nil =>
    cases right with
    | nil => rfl
    | cons byte rest => simp at hlist
  | cons first rest ih =>
    cases right with
    | nil => simp at hlist
    | cons second others =>
      simp only [List.flatMap_cons, List.cons_append, List.nil_append, List.cons.injEq] at hlist
      obtain ⟨hhigh, hlow, hrest⟩ := hlist
      have hfirst := first.toNat_lt
      have hsecond := second.toNat_lt
      have hquotient := hexDigit_injective _ (by omega) _ (by omega) hhigh
      have hremainder := hexDigit_injective _ (Nat.mod_lt _ (by decide)) _ (Nat.mod_lt _ (by decide)) hlow
      have hnat : first.toNat = second.toNat := by omega
      rw [UInt8.toNat_inj.mp hnat, ih hrest]

theorem fingerprint_injective : Function.Injective PublicKey.fingerprint := by
  rintro ⟨left⟩ ⟨right⟩ h
  have hbytes : (Vector.ofFn fun index : Fin 32 => left.toList.getD index 0) =
      Vector.ofFn fun index : Fin 32 => right.toList.getD index 0 := Vector.toList_inj.mp (hex_injective h)
  refine congrArg PublicKey.mk (Vector.ext fun index hindex => ?_)
  have hget := congrArg (fun bytes : Vector UInt8 32 => bytes[index]) hbytes
  simpa [hindex] using hget

theorem unforgeable_plain : Unforgeable fun signature =>
    if h : 32 ≤ signature.length then
      some (⟨(signature.take 32).toArray, by simpa using h⟩, signature.drop 32)
    else none := by
  intro key message signature h
  obtain rfl : signature = key.toList ++ message := beq_iff_eq.mp h
  have hkey : key.toList.toArray = key.toArray := Array.toArray_toList
  simp [hkey]

def zeroKey : PublicKey := ⟨Vector.replicate 32 0⟩

/-- The claims of a request for the Teams. -/
def sampleSaid (assertionId : String) (issuedAt expiresAt : Int) : Supervisor.Said where
  subject := "00000000000000000000000000000000"
  authority := "session"
  authoritySha256 := Supervisor.emptySha256
  assertionId := assertionId
  issuedAt := issuedAt
  expiresAt := expiresAt
  method := "GET"
  path := "/teams"
  body := (Captured.none).binding
  model := none
  decision := none
  assurance := none

def sampleClaims (assertionId : String) (issuedAt expiresAt : Int) : Value :=
  (sampleSaid assertionId issuedAt expiresAt).claims Supervisor.assertionAudience

def sampleHeader (claims : Value) : List (List UInt8) :=
  bearer (assertionText Supervisor.jwtHeader claims (zeroKey.raw.toList ++ covered Supervisor.jwtHeader claims))

def sampleRequest : Request := ⟨"GET", "/teams", .none, none, none, none, false⟩

theorem jsonSegment_sampleHeader : jsonSegment (segment (headerValue Supervisor.jwtHeader)) =
    .ok (sorted (headerValue Supervisor.jwtHeader)) := by
  refine jsonSegment_segment (.object (by decide) ?_) (by decide) (by decide)
  simp [Supervisor.jwtHeader, text, Decoded.string]

theorem decoded_sampleClaims (hissued : Parser.fitsI64 issuedAt = true)
    (hexpires : Parser.fitsI64 expiresAt = true) : Decoded (sampleClaims assertionId issuedAt expiresAt) := by
  have hbody : Decoded (Captured.none).binding := by
    refine .object (by decide) ?_
    simp only [List.forall_mem_cons]
    exact ⟨.string _, .int (by decide), .string _, by simp⟩
  refine .object (Supervisor.nodup_claims _ _ _ rfl) ?_
  simp only [sampleSaid, Supervisor.optionalMember, Option.toList, List.map_nil, List.append_nil,
    List.forall_mem_cons]
  exact ⟨.int (by decide), .string _, .string _, .string _, .string _, .string _, .int hissued,
    .int hexpires, .string _, .string _, hbody, by simp⟩

/-- A signed sample is accepted when its text is short and its claims are admitted. -/
theorem claimsOf_sample (hissued : Parser.fitsI64 issuedAt = true) (hexpires : Parser.fitsI64 expiresAt = true)
    (hshort : (writeValue canonicalOptions (sampleClaims assertionId issuedAt expiresAt)).length ≤ 580)
    (hclaims : Supervisor.canonicalClaims (sorted (sampleClaims assertionId issuedAt expiresAt))
      Supervisor.assertionAudience = .ok (sampleClaims assertionId issuedAt expiresAt)) :
    claimsOf .supervisor (sampleHeader (sampleClaims assertionId issuedAt expiresAt)) zeroKey =
      .ok (sampleClaims assertionId issuedAt expiresAt) := by
  have hbytes := length_utf8_ofList_le (writeValue canonicalOptions (sampleClaims assertionId issuedAt expiresAt))
  have hheader : (segment (headerValue Supervisor.jwtHeader)).length ≤ 100 := by decide
  have hsegment := length_encodeBase64url_le (utf8 (canonical (sampleClaims assertionId issuedAt expiresAt)))
  have hcovered : (covered Supervisor.jwtHeader (sampleClaims assertionId issuedAt expiresAt)).length =
      (segment (headerValue Supervisor.jwtHeader)).length +
        ((segment (sampleClaims assertionId issuedAt expiresAt)).length + 1) := by
    rw [covered, signingInput, length_utf8_of_ascii, List.length_append, List.length_cons]
    simp only [List.forall_mem_append, List.forall_mem_cons]
    exact ⟨fun _ h => (encodeBase64url_plain h).1, by decide, fun _ h => (encodeBase64url_plain h).1⟩
  have hsignature := length_encodeBase64url_le
    (zeroKey.raw.toList ++ covered Supervisor.jwtHeader (sampleClaims assertionId issuedAt expiresAt))
  rw [List.length_append, hcovered, Vector.length_toList] at hsignature
  change 3 * (segment (sampleClaims assertionId issuedAt expiresAt)).length ≤ _ at hsegment
  change (utf8 (canonical (sampleClaims assertionId issuedAt expiresAt))).length ≤ _ at hbytes
  refine claimsOf_bearer jsonSegment_sampleHeader (by decide)
    (jsonSegment_segment (decoded_sampleClaims hissued hexpires) (show 2 ≤ 512 from by decide) ?_) hclaims
    (beq_self_eq_true _) (by simp [zeroKey]) ?_
  · exact hbytes.trans (by unfold Supervisor.assertionMaxBytes; omega)
  · change (segment (headerValue Supervisor.jwtHeader)).length + _ + _ + 2 ≤ 8192
    omega

theorem oneAssertion_sample (h : claimsOf .supervisor (sampleHeader claims) zeroKey = .ok claims) :
    ∃ encoded, oneAssertion (sampleHeader claims) = .ok encoded := by
  obtain ⟨encoded, hencoded, -⟩ := bind_eq_ok.mp h
  exact ⟨encoded, hencoded⟩

def firstId : String := "00000000000000000000000000000000"

def firstClaims : Value := sampleClaims firstId 1 10

theorem claimsOf_first : claimsOf .supervisor (sampleHeader firstClaims) zeroKey = .ok firstClaims :=
  claimsOf_sample (by decide) (by decide) (by decide +kernel) rfl

theorem bound_first : bound firstClaims (Kind.supervisor.binding sampleRequest) 10 = .ok (firstId, 10) := rfl

theorem evidenceOf_first : ∃ evidence, evidenceOf .supervisor zeroKey firstClaims = some evidence :=
  ⟨_, rfl⟩

def sampleStart : World where
  clock := 10
  guard := .withCapacity 16
  supervisorFile := .absent
  routineFile := .absent
  pinFile := .held zeroKey.toPem

theorem started_sampleStart : Started sampleStart := ⟨⟨16, rfl⟩, rfl, rfl, rfl⟩

theorem pinned_sampleStart : readPin sampleStart.pinFile = .ok (some zeroKey) := by
  unfold sampleStart
  exact readPin_toPem zeroKey

theorem sample_run : ∃ past world, Runs sampleStart past world ∧
    world.entered = [⟨firstId, 10, 10, true⟩] ∧ world.given.length = 1 := by
  obtain ⟨encoded, hencoded⟩ := oneAssertion_sample claimsOf_first
  obtain ⟨evidence, hevidence⟩ := evidenceOf_first
  obtain ⟨earlier, hpresented⟩ := Runs.refl.present sampleRequest hencoded pinned_sampleStart
    (show sampleStart.clock = 10 from rfl)
  obtain ⟨past, haccepted⟩ := hpresented.accept claimsOf_first bound_first
    (consume_fresh 10 rfl rfl (by decide)) hevidence
  exact ⟨past, _, haccepted, rfl, rfl⟩

end

open List

variable {expiresAt now : Int}

section

variable {guard : ReplayGuard} {assertionId : String} {expiresAt now : Int}

/-- What the guard answers and becomes: expired ids are dropped, a held id is denied, a full guard is
unavailable, and any other id is entered. -/
theorem consume_cases (guard : ReplayGuard) (assertionId expiresAt now) :
    let seen := guard.seen.retain fun _ expiry => now ≤ expiry
    (∃ refusal, guard.consume assertionId expiresAt now = (.error refusal, { guard with seen := seen })) ∨
      seen.lookup assertionId = none ∧ seen.entries.length < guard.capacity ∧ guard.consume assertionId expiresAt now =
          (.ok (), { guard with seen := seen.insert assertionId expiresAt }) := by
  intro seen
  unfold ReplayGuard.consume
  by_cases hheld : (seen.lookup assertionId).isSome = true
  · exact .inl ⟨.denied, if_pos hheld⟩
  · by_cases hfull : guard.capacity ≤ seen.entries.length
    · exact .inl ⟨.unavailable, (if_neg hheld).trans (if_pos hfull)⟩
    · refine .inr ⟨by simpa using hheld, Nat.not_le.mp hfull, (if_neg hheld).trans (if_neg hfull)⟩

def ReplayGuard.Bounded (guard : ReplayGuard) : Prop := guard.seen.entries.length ≤ guard.capacity

theorem ReplayGuard.bounded_withCapacity (capacity) : (withCapacity capacity).Bounded :=
  Nat.zero_le _

theorem ReplayGuard.Bounded.consume (h : guard.Bounded) : (guard.consume assertionId expiresAt now).2.Bounded := by
  have hretained : (guard.seen.retain fun _ expiry => now ≤ expiry).entries.length ≤ guard.capacity :=
    Table.length_retain_le.trans h
  rcases consume_cases guard assertionId expiresAt now with ⟨refusal, hconsume⟩ | ⟨hnone, hroom, hconsume⟩
  · rw [hconsume]
    exact hretained
  · rw [hconsume]
    unfold ReplayGuard.Bounded
    rw [Table.length_insert_of_none hnone]
    exact hroom

/-- An id that the guard held is held after the next entry unless it expired before that entry's
reading. -/
theorem lookup_consume {other expiry} (h : guard.seen.lookup other = some expiry)
    (hlive : now ≤ expiry) : (guard.consume assertionId expiresAt now).2.seen.lookup other = some expiry := by
  have hretained : (guard.seen.retain fun _ expiry => now ≤ expiry).lookup other = some expiry :=
    Table.lookup_retain.mpr ⟨h, decide_eq_true hlive⟩
  rcases consume_cases guard assertionId expiresAt now with ⟨refusal, hconsume⟩ | ⟨hnone, -, hconsume⟩
  · rw [hconsume]
    exact hretained
  · rw [hconsume]
    refine Table.lookup_insert_eq_some.mpr (.inr ⟨?_, hretained⟩)
    rintro rfl
    cases hnone.symm.trans hretained

end

section

variable {world next start : World}

def Given.assertionId (given : Given) : Option String := string (fieldOf given.claims "jti")

/-- An entry that finds an earlier one in order: its assertion was not expired at the earlier reading,
and an id that entered before comes with the expiry it came with. -/
def InOrder (earlier later : Entry) : Prop :=
  earlier.now ≤ later.expiresAt ∧ (earlier.assertionId = later.assertionId → earlier.expiresAt = later.expiresAt)

/-- The ids that the guard let through, in turn. -/
def World.admittedIds (world : World) : List String :=
  (world.entered.filter Entry.admitted).map Entry.assertionId

/-- What the guard remembers of its entries: an id let through is held until a reading past its expiry
enters. -/
structure Remembers (world : World) : Prop where
  bounded : world.guard.Bounded
  held : ∀ entry ∈ world.entered, entry.admitted = true →
    world.guard.seen.lookup entry.assertionId = some entry.expiresAt ∨
      ∃ other ∈ world.entered, entry.expiresAt < other.now
  once : world.entered.Pairwise InOrder → world.admittedIds.Nodup
  given : (world.given.map Given.assertionId).Sublist (world.admittedIds.map some)

theorem Remembers.started (h : Started start) : Remembers start where
  bounded := by
    obtain ⟨capacity, hguard⟩ := h.guard
    rw [hguard]
    exact ReplayGuard.bounded_withCapacity capacity
  held := by simp [h.entered]
  once := by simp [World.admittedIds, h.entered]
  given := by simp [h.given]

variable {assertionId : String}

/-- Once a reading enters, an id let through is held or a reading past its expiry has entered. -/
theorem Remembers.held_next (h : Remembers world) {admitted}
    (hguard : next.guard = (world.guard.consume assertionId expiresAt now).2)
    (hentered : next.entered = world.entered ++ [⟨assertionId, expiresAt, now, admitted⟩])
    (hlast : admitted = true → next.guard.seen.lookup assertionId = some expiresAt) :
    ∀ entry ∈ next.entered, entry.admitted = true → next.guard.seen.lookup entry.assertionId = some entry.expiresAt ∨
        ∃ other ∈ next.entered, entry.expiresAt < other.now := by
  intro entry hentry hadmitted
  rw [hentered] at hentry ⊢
  rcases mem_append.mp hentry with hentry | hentry
  · rcases h.held entry hentry hadmitted with hlookup | ⟨other, hother, hlater⟩
    · rcases le_or_gt now entry.expiresAt with hlive | hpast
      · exact .inl (hguard ▸ lookup_consume hlookup hlive)
      · exact .inr ⟨_, mem_append_right _ (mem_singleton_self _), hpast⟩
    · exact .inr ⟨other, mem_append_left _ hother, hlater⟩
  · obtain rfl := mem_singleton.mp hentry
    exact .inl (hlast hadmitted)

theorem Remembers.denied (h : Remembers world) {refusal}
    (hconsume : world.guard.consume assertionId expiresAt now = (.error refusal, next.guard))
    (hentered : next.entered = world.entered ++ [⟨assertionId, expiresAt, now, false⟩])
    (hgiven : next.given = world.given) : Remembers next := by
  have hids : next.admittedIds = world.admittedIds := by
    simp [World.admittedIds, hentered, filter_append]
  have hguard : next.guard = (world.guard.consume assertionId expiresAt now).2 := by rw [hconsume]
  refine ⟨hguard ▸ h.bounded.consume, ?_, ?_, by rw [hids, hgiven]; exact h.given⟩
  · exact h.held_next hguard hentered nofun
  · intro horder
    rw [hids]
    rw [hentered] at horder
    exact h.once (pairwise_append.mp horder).1

theorem Remembers.admitted (h : Remembers world) {assertionId} (hlive : now ≤ expiresAt)
    (hconsume : world.guard.consume assertionId expiresAt now = (.ok (), next.guard))
    (hentered : next.entered = world.entered ++ [⟨assertionId, expiresAt, now, true⟩])
    (hgiven : (next.given.map Given.assertionId).Sublist ((world.admittedIds ++ [assertionId]).map some)) :
    Remembers next := by
  have hids : next.admittedIds = world.admittedIds ++ [assertionId] := by
    simp [World.admittedIds, hentered, filter_append]
  have hguard : next.guard = (world.guard.consume assertionId expiresAt now).2 := by rw [hconsume]
  have hcases := consume_cases world.guard assertionId expiresAt now
  simp only [hconsume, Prod.mk.injEq, reduceCtorEq, false_and, exists_false, false_or, true_and] at hcases
  obtain ⟨hnone, -, hinserted⟩ := hcases
  refine ⟨hguard ▸ h.bounded.consume, ?_, ?_, hids ▸ hgiven⟩
  · exact h.held_next hguard hentered fun _ => hinserted ▸ AList.lookup_insert _
  · intro horder
    rw [hentered] at horder
    obtain ⟨hbefore, -, hnew⟩ := pairwise_append.mp horder
    rw [hids]
    refine (h.once hbefore).append (nodup_singleton _) ?_
    -- an earlier entry of this id would still be held, so this one would have been denied
    rintro found hfound hid
    obtain rfl := mem_singleton.mp hid
    obtain ⟨entry, hentry, rfl⟩ := mem_map.mp hfound
    obtain ⟨hentry, hadmitted⟩ := mem_filter.mp hentry
    have hexpiry : entry.expiresAt = expiresAt := (hnew entry hentry _ (mem_singleton_self _)).2 rfl
    rcases h.held entry hentry hadmitted with hlookup | ⟨other, hother, hlater⟩
    · have hretained : (world.guard.seen.retain fun _ expiry => now ≤ expiry).lookup entry.assertionId =
          some entry.expiresAt :=
        Table.lookup_retain.mpr ⟨hlookup, decide_eq_true (hexpiry ▸ hlive)⟩
      cases hnone.symm.trans hretained
    · have hle := (hnew other hother _ (mem_singleton_self _)).1
      exact absurd (hexpiry ▸ hlater) (not_lt_of_ge hle)

end

section

variable [Platform] [SignatureScheme] {world next start : World} {past : List World} {event : Event}

theorem Remembers.step (h : Remembers world) (hstep : Step world event next) : Remembers next := by
  rcases hstep.cases_verify with ⟨hguard, hentered, hgiven⟩ | ⟨kind, header, request, now, key, rest, -, rfl⟩
  · exact ⟨hguard ▸ h.bounded, by rw [hentered, hguard]; exact h.held,
      by rw [hentered, World.admittedIds, hentered]; exact h.once,
      by rw [World.admittedIds, hentered, hgiven]; exact h.given⟩
  · cases verified world kind header request now key rest with
    | refused htasks hguard hentered hgiven =>
      exact ⟨hguard ▸ h.bounded, by rw [hentered, hguard]; exact h.held,
        by rw [hentered, World.admittedIds, hentered]; exact h.once,
        by rw [World.admittedIds, hentered, hgiven]; exact h.given⟩
    | denied htasks hbound hconsume hentered hgiven => exact h.denied hconsume hentered hgiven
    | @admitted claims assertionId expiresAt given htasks hclaims hbound hconsume hentered hgiven hnew =>
      have hbinds := binds_of_bound hbound
      refine h.admitted hbinds.live hconsume hentered ?_
      rw [hgiven, map_append, map_append]
      refine h.given.append ?_
      rcases hnew with rfl | ⟨evidence, rfl, -⟩
      · exact nil_sublist _
      · have hid : Given.assertionId ⟨kind, header, request, now, key, claims, evidence⟩ = some assertionId :=
          hbinds.id
        rw [map_singleton, hid]
        exact List.Sublist.refl _

theorem Remembers.runs (hstart : Started start) (hruns : Runs start past world) : Remembers world := by
  induction hruns with
  | refl => exact .started hstart
  | step hruns hstep ih => exact ih.step hstep

end

attribute [local instance] copyingPlatform plainScheme

def secondId : String := "11111111111111111111111111111111"

/-- Another sample assertion: it is issued after the first expires. -/
def secondClaims : Value := sampleClaims secondId 11 20

theorem claimsOf_second : claimsOf .supervisor (sampleHeader secondClaims) zeroKey = .ok secondClaims :=
  claimsOf_sample (by decide) (by decide) (by decide +kernel) rfl

theorem bound_second : bound secondClaims (Kind.supervisor.binding sampleRequest) 11 = .ok (secondId, 20) := rfl

theorem evidenceOf_second : ∃ evidence, evidenceOf .supervisor zeroKey secondClaims = some evidence :=
  ⟨_, rfl⟩

/-- The sample verifier with what its guard has seen, what is under way and what happened. -/
def sampleWorld (clock : Int) (seen : Table String Int) (tasks : Multiset Task) (entered : List Entry)
    (given : List Given) : World where
  clock := clock
  guard := ⟨16, seen⟩
  supervisorFile := .absent
  routineFile := .absent
  pinFile := .held zeroKey.toPem
  tasks := tasks
  entered := entered
  given := given

def Sampled (clock : Int) (seen : Table String Int) (tasks : Multiset Task) (entered : List Entry)
    (given : List Given) : Prop := ∃ past, Runs sampleStart past (sampleWorld clock seen tasks entered given)

variable {clock : Int} {seen : Table String Int} {tasks : Multiset Task} {entered : List Entry} {given : List Given}

def sampleTask (claims : Value) (now : Int) : Task :=
  .keyed .supervisor (sampleHeader claims) sampleRequest now zeroKey

theorem Sampled.tick (h : Sampled clock seen tasks entered given) {later} (hlater : clock ≤ later) :
    Sampled later seen tasks entered given := by
  obtain ⟨past, hruns⟩ := h
  exact ⟨_, hruns.step (.tick hlater)⟩

theorem Sampled.present (h : Sampled clock seen tasks entered given) {claims}
    (hclaims : claimsOf .supervisor (sampleHeader claims) zeroKey = .ok claims) :
    Sampled clock seen (sampleTask claims clock ::ₘ tasks) entered given := by
  obtain ⟨past, hruns⟩ := h
  obtain ⟨encoded, hencoded⟩ := oneAssertion_sample hclaims
  exact hruns.present sampleRequest hencoded (readPin_toPem zeroKey) rfl

theorem Sampled.accept {claims assertionId evidence}
    (h : Sampled clock seen (sampleTask claims now ::ₘ tasks) entered given)
    (hclaims : claimsOf .supervisor (sampleHeader claims) zeroKey = .ok claims)
    (hbound : bound claims (Kind.supervisor.binding sampleRequest) now = .ok (assertionId, expiresAt))
    (hevidence : evidenceOf .supervisor zeroKey claims = some evidence) {kept}
    (hkept : (seen.retain fun _ expiry => now ≤ expiry) = kept)
    (hnone : kept.lookup assertionId = none) (hroom : kept.entries.length < 16) :
    Sampled clock (kept.insert assertionId expiresAt) tasks (entered ++ [⟨assertionId, expiresAt, now, true⟩])
      (given ++ [⟨.supervisor, sampleHeader claims, sampleRequest, now, zeroKey, claims, evidence⟩]) := by
  obtain ⟨past, hruns⟩ := h
  have hconsume : ReplayGuard.consume ⟨16, seen⟩ assertionId expiresAt now =
      (.ok (), ⟨16, kept.insert assertionId expiresAt⟩) := consume_fresh expiresAt hkept hnone hroom
  have hruns' : Runs sampleStart past { sampleWorld clock seen tasks entered given with
      tasks := sampleTask claims now ::ₘ tasks } := hruns
  exact hruns'.accept hclaims hbound hconsume hevidence

end ShimpzTeams.Authority
