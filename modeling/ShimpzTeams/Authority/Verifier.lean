import ShimpzTeams.Protocol.Supervisor
import ShimpzTeams.Library.Table

/-!
# One request-bound assertion, its verifier and the key pin

An assertion is its header, its three canonical segments, its closed claims, its
signature, and the exact request it binds. Each verification reads the clock, then
a key, and then enters the one replay guard; a rotation and the removal of the pin
take the pin's lock. A run is any interleaving of these sections with each other,
with the clock, and with the keys that are published meanwhile. Each layer of an
assertion has one encoding, so an accepted one is the canonical encoding of claims
that name exactly the request it was sent with.
-/

namespace ShimpzTeams.Authority

open StrictJson Protocol Library

/-- The signature scheme the code calls: whether a key's signature is one of a message. -/
class SignatureScheme where
  verifies : Vector UInt8 32 → List UInt8 → List UInt8 → Bool

/-- Why an assertion or a key operation was refused. -/
inductive Refusal where
  | denied
  | unavailable
  deriving DecidableEq, Repr

/-- The text some bytes encode. -/
def fromUtf8 (raw : List UInt8) : Option String := String.fromUTF8? ⟨raw.toArray⟩

/-- One Ed25519 verification key. -/
structure PublicKey where
  raw : Vector UInt8 32
  deriving DecidableEq

/-- The DER bytes before a key's own (RFC 8410). -/
def spkiPrefix : List UInt8 :=
  [0x30, 0x2a, 0x30, 0x05, 0x06, 0x03, 0x2b, 0x65, 0x70, 0x03, 0x21, 0x00]

def pemBegin : String := "-----BEGIN PUBLIC KEY-----\n"

def pemEnd : String := "\n-----END PUBLIC KEY-----\n"

def PublicKey.fromRaw (raw : List UInt8) : Option PublicKey :=
  if h : raw.length = 32 then some ⟨⟨raw.toArray, h⟩⟩ else none

/-- The key of one PEM document, only in its one canonical form. -/
def PublicKey.fromPem (pem : List UInt8) : Option PublicKey := do
  let text ← fromUtf8 pem
  let body ← text.toList.dropPrefix? pemBegin.toList
  let body ← body.dropSuffix? pemEnd.toList
  let der ← Base64.decode false body
  if Base64.encode der ≠ body then none
  else do
    let raw ← der.dropPrefix? spkiPrefix
    PublicKey.fromRaw raw

def PublicKey.toPem (key : PublicKey) : List UInt8 :=
  utf8 (pemBegin ++ String.ofList (Base64.encode (spkiPrefix ++ key.raw.toList)) ++ pemEnd)

def PublicKey.fingerprint [Platform] (key : PublicKey) : String :=
  hex (Platform.sha256 key.raw.toList).toList

def PublicKey.verifies [SignatureScheme] (key : PublicKey) (message signature : List UInt8) : Bool :=
  SignatureScheme.verifies key.raw message signature

section

def maxAssertionBytes : Nat := 8192

/-- `one_assertion`: exactly one header value, a bearer of printable ASCII. -/
def oneAssertion (values : List (List UInt8)) : Except Refusal String :=
  match values with
  | [value] =>
    match value.dropPrefix? (utf8 "Bearer ") with
    | some encoded =>
      if !encoded.isEmpty && encoded.length ≤ maxAssertionBytes && encoded.all (fun byte =>
          byte < 128 && !(9 ≤ byte && byte ≤ 13) && !(0x1c ≤ byte && byte ≤ 0x20)) then
        match fromUtf8 encoded with
        | some text => .ok text
        | none => .error .denied
      else .error .denied
    | none => .error .denied
  | _ => .error .denied

def encodeBase64url (raw : List UInt8) : List Char := Base64.encodeBare Base64.urlSafeChar raw

def decodeBase64url (encoded : List Char) : Option (List UInt8) :=
  if !(encoded.all fun character => character.toNat < 128) || encoded.contains '=' then none
  else do
    let raw ← Base64.decodeBare Base64.urlSafeChar false encoded
    if encodeBase64url raw = encoded then some raw else none

variable [Platform]

def jsonSegment (encoded : List Char) : Except Refusal Value :=
  match decodeBase64url encoded with
  | none => .error .denied
  | some raw =>
    match (fromUtf8 raw).map parse with
    | some (.ok value) =>
      match Supervisor.canonicalJson value with
      | .ok canonical => if encodeBase64url canonical = encoded then .ok value else .error .denied
      | .error _ => .error .denied
    | _ => .error .denied

def headerIs (header : Value) (expected : Supervisor.JwtHeader) : Bool :=
  (object header).any fun members => members.length == expected.length &&
    expected.all fun entry => string (field members entry.1) == some entry.2

def signingInput (head body : List Char) : List UInt8 := utf8 (String.ofList (head ++ '.' :: body))

def verifiedClaims [SignatureScheme] (encoded : String) (key : PublicKey) (header : Supervisor.JwtHeader)
    (audience : String) : Except Refusal Value :=
  match encoded.toList.splitOn '.' with
  | [head, body, signature] =>
    if head.isEmpty || body.isEmpty || signature.isEmpty then .error .denied
    else do
      let decodedHeader ← jsonSegment head
      let untrusted ← jsonSegment body
      if !headerIs decodedHeader header then .error .denied
      else do
        let claims ← (Supervisor.canonicalClaims untrusted audience).mapError fun _ => Refusal.denied
        match decodeBase64url signature with
        | some signature =>
          if key.verifies (signingInput head body) signature then .ok claims else .error .denied
        | none => .error .denied
  | _ => .error .denied

end

structure RequestBinding where
  method : String
  path : String
  body : Value
  model : Option Value
  decision : Option Value
  assurance : Option Value
  authorities : List String

/-- An optional binding is absent from both, or equal in both. -/
def bindsOptional (claims : Value) (name : String) (expected : Option Value) : Bool :=
  match claims.get name, expected with
  | none, none => true
  | some actual, some expected => pyEq actual expected
  | _, _ => false

/-- Checks the claims' time and their exact binding of a request; returns the assertion's id and
expiry. -/
def bound (claims : Value) (request : RequestBinding) (now : Int) : Except Refusal (String × Int) :=
  match object claims with
  | none => .error .denied
  | some members =>
    match smallInt (field members "iat"), smallInt (field members "exp") with
    | some issuedAt, some expiresAt =>
      if now + Supervisor.assertionClockSkewSeconds < issuedAt ∨ expiresAt < now then .error .denied
      else
        match string (field members "jti") with
        | none => .error .denied
        | some assertionId =>
          if string (field members "method") == some request.method &&
              string (field members "path") == some request.path &&
              pyEq (field members "body") request.body &&
              bindsOptional claims "model" request.model &&
              bindsOptional claims "decision" request.decision &&
              bindsOptional claims "assurance" request.assurance &&
              (string (field members "authority")).any request.authorities.contains then
            .ok (assertionId, expiresAt)
          else .error .denied
    | _, _ => .error .denied

/-- A captured body, before any file content is read. -/
inductive Captured where
  | none
  | json (raw : List UInt8)
  | file (length : Nat) (filename mediaType : String)

/-- A length as a 64-bit integer. -/
def lengthValue (length : Nat) : Value := int (min length (2 ^ 63 - 1))

section

variable [Platform]

/-- The binding of a body that an assertion must carry. -/
def Captured.binding : Captured → Value
  | .none => objectOf [("kind", text "none"), ("length", int 0), ("sha256", text Supervisor.emptySha256)]
  | .json raw => objectOf [("kind", text "json"), ("length", lengthValue raw.length),
      ("sha256", text (hex (Platform.sha256 raw).toList))]
  | .file length filename mediaType => objectOf [("kind", text "file"), ("length", lengthValue length),
      ("filename", text filename), ("media_type", text mediaType)]

/-- `credential_binding`: a provider and its key's digest. -/
def credentialBinding (provider key : String) : Value :=
  objectOf [("provider", text provider), ("key_sha256", text (sha256Hex key))]

/-- A request as the server reads it. -/
structure Request where
  method : String
  path : String
  captured : Captured
  /-- The provider and key of a model-bound request. -/
  model : Option (String × String)
  /-- The key that classifies intent. -/
  decision : Option String
  /-- The kind and id of the pending authentication challenge it approves. -/
  assurance : Option (String × String)
  spaceReset : Bool

/-- The exact request a Supervisor assertion must bind. -/
def Request.binding (request : Request) : RequestBinding where
  method := request.method
  path := request.path
  body := request.captured.binding
  model := request.model.map fun model => credentialBinding model.1 model.2
  decision := request.decision.map fun key => credentialBinding "typesafe" key
  assurance := request.assurance.map fun challenge =>
    objectOf [("kind", text challenge.1), ("challenge_id", text challenge.2)]
  authorities := if request.spaceReset then ["session", "host-reset"] else ["session"]

def Request.routineBinding (request : Request) : RequestBinding where
  method := request.method
  path := request.path
  body := request.captured.binding
  model := none
  decision := none
  assurance := none
  authorities := [Supervisor.routineAuthority]

end

/-- The most live assertion ids a guard holds. -/
def maxReplayEntries : Nat := 16 * 1024

/-- The bounded one-use guard. -/
structure ReplayGuard where
  capacity : Nat
  seen : Table String Int

/-- A guard of some capacity, clamped to 1 through the most. -/
def ReplayGuard.withCapacity (capacity : Nat) : ReplayGuard := ⟨max 1 (min capacity maxReplayEntries), ∅⟩

def ReplayGuard.consume (guard : ReplayGuard) (assertionId : String) (expiresAt now : Int) :
    Except Refusal Unit × ReplayGuard :=
  let seen := guard.seen.retain fun _ expiry => now ≤ expiry
  if (seen.lookup assertionId).isSome then (.error .denied, { guard with seen := seen })
  else if guard.capacity ≤ seen.entries.length then (.error .unavailable, { guard with seen := seen })
  else (.ok (), { guard with seen := seen.insert assertionId expiresAt })

inductive KeyFile where
  | absent
  /-- It cannot be read safely. -/
  | refused
  | held (raw : List UInt8)

def published : KeyFile → Except Refusal PublicKey
  | .held raw =>
    match PublicKey.fromPem raw with
    | some key => .ok key
    | none => .error .unavailable
  | _ => .error .unavailable

/-- The pin, `none` before the first verification; an unsafe or damaged pin is unavailable. -/
def readPin : KeyFile → Except Refusal (Option PublicKey)
  | .absent => .ok none
  | .refused => .error .unavailable
  | .held raw =>
    match PublicKey.fromPem raw with
    | some key => .ok (some key)
    | none => .error .unavailable

def rotationKey (body : Value) : Option PublicKey := do
  let encoded ← Supervisor.canonicalKeyRotation body
  let raw ← decodeBase64url encoded.toList
  PublicKey.fromRaw raw

/-- A rotation up to its write: the key to write, or `none` when it is pinned already. -/
def rotate [Platform] (pin : KeyFile) (body : Value) (signedBy : String) : Except Refusal (Option PublicKey) :=
  match rotationKey body with
  | none => .error .denied
  | some new =>
    match readPin pin with
    | .error refusal => .error refusal
    | .ok none => .error .unavailable
    | .ok (some pinned) =>
      if pinned.fingerprint = new.fingerprint then .ok none
      else if pinned.fingerprint ≠ signedBy then .error .denied
      else .ok (some new)

section

/-- Which identity an assertion is of. -/
inductive Kind where
  | supervisor
  | routine
  deriving DecidableEq

def Kind.header : Kind → Supervisor.JwtHeader
  | .supervisor => Supervisor.jwtHeader
  | .routine => Supervisor.routineJwtHeader

def Kind.audience : Kind → String
  | .supervisor => Supervisor.assertionAudience
  | .routine => Supervisor.routineAudience

variable [Platform]

def Kind.binding : Kind → Request → RequestBinding
  | .supervisor, request => request.binding
  | .routine, request => request.routineBinding

inductive Evidence where
  | supervisor (supervisorId keySha256 authority authoritySha256 : String) (assurance : Option String)
  | routine (keyFingerprint leaseSha256 : String)

/-- What verified claims prove. -/
def evidenceOf (kind : Kind) (key : PublicKey) (claims : Value) : Option Evidence :=
  match kind with
  | .supervisor => do
      let supervisorId ← (claims.get "sub").bind string
      let authority ← (claims.get "authority").bind string
      let authoritySha256 ← (claims.get "authority_sha256").bind string
      let assurance := ((claims.get "assurance").bind fun assurance => assurance.get "kind").bind string
      some (.supervisor supervisorId key.fingerprint authority authoritySha256 assurance)
  | .routine => do
      let leaseSha256 ← (claims.get "authority_sha256").bind string
      some (.routine key.fingerprint leaseSha256)

def claimsOf [SignatureScheme] (kind : Kind) (header : List (List UInt8)) (key : PublicKey) :
    Except Refusal Value := do
  let encoded ← oneAssertion header
  verifiedClaims encoded key kind.header kind.audience

end

/-- One verification that gave evidence. -/
structure Given where
  kind : Kind
  header : List (List UInt8)
  request : Request
  /-- The reading of the clock it judged by. -/
  now : Int
  key : PublicKey
  claims : Value
  evidence : Evidence

/-- One entry into the replay guard. -/
structure Entry where
  assertionId : String
  expiresAt : Int
  now : Int
  admitted : Bool

/-- A verification or a request it let through, between two sections. -/
inductive Task where
  | arrived (kind : Kind) (header : List (List UInt8)) (request : Request)
  | timed (kind : Kind) (header : List (List UInt8)) (request : Request) (now : Int)
  | keyed (kind : Kind) (header : List (List UInt8)) (request : Request) (now : Int) (key : PublicKey)
  | serving (given : Given)

/-- The verifier with everything that runs on it. -/
structure World where
  clock : Int
  guard : ReplayGuard
  supervisorFile : KeyFile
  routineFile : KeyFile
  pinFile : KeyFile
  tasks : Multiset Task := 0
  /-- The entries into the guard so far. -/
  entered : List Entry := []
  /-- The evidence given so far. -/
  given : List Given := []

/-- What changed the pin. -/
inductive Event where
  | quiet
  | pinned
  | rotated (given : Given)
  | forgotten

section

variable [Platform] [SignatureScheme]

/-- The last section of a verification: the assertion is verified under the key that was read, and
consumed once. -/
def World.verify (world : World) (kind : Kind) (header : List (List UInt8)) (request : Request)
    (now : Int) (key : PublicKey) (rest : Multiset Task) : World :=
  match claimsOf kind header key with
  | .error _ => { world with tasks := rest }
  | .ok claims =>
    match bound claims (kind.binding request) now with
    | .error _ => { world with tasks := rest }
    | .ok (assertionId, expiresAt) =>
      match world.guard.consume assertionId expiresAt now with
      | (.error _, guard) =>
        { world with guard := guard
                     tasks := rest
                     entered := world.entered ++ [⟨assertionId, expiresAt, now, false⟩] }
      | (.ok (), guard) =>
        let entered := world.entered ++ [⟨assertionId, expiresAt, now, true⟩]
        match evidenceOf kind key claims with
        | none => { world with guard := guard, tasks := rest, entered := entered }
        | some evidence =>
          let given : Given := ⟨kind, header, request, now, key, claims, evidence⟩
          { world with guard := guard
                       tasks := .serving given ::ₘ rest
                       entered := entered
                       given := world.given ++ [given] }

def Captured.document : Captured → Option Value
  | .json raw => (fromUtf8 raw).bind fun text => (parse text).toOption
  | _ => Option.none

/-- The fingerprint of the key that verified a Supervisor's request. -/
def Evidence.signedBy : Evidence → Option String
  | .supervisor _ keySha256 _ _ _ => some keySha256
  | .routine _ _ => none

/-- One section of a verification, a rotation or a removal of the pin, or a change outside. A write that
fails leaves the pin as it was or as it should have become. -/
inductive Step : World → Event → World → Prop
  | tick {world later} (hlater : world.clock ≤ later) :
      Step world .quiet { world with clock := later }
  | publish {world} (supervisorFile routineFile : KeyFile) :
      Step world .quiet { world with supervisorFile := supervisorFile, routineFile := routineFile }
  | arrive {world} (kind : Kind) (header : List (List UInt8)) (request : Request) :
      Step world .quiet { world with tasks := .arrived kind header request ::ₘ world.tasks }
  | readClock {world kind header request rest} (htasks : world.tasks = .arrived kind header request ::ₘ rest) :
      Step world .quiet { world with tasks := .timed kind header request world.clock ::ₘ rest }
  | refuse {world task rest} (htasks : world.tasks = task ::ₘ rest) :
      Step world .quiet { world with tasks := rest }
  | readPinned {world header request now key encoded rest}
      (htasks : world.tasks = .timed .supervisor header request now ::ₘ rest)
      (hheader : oneAssertion header = .ok encoded) (hpin : readPin world.pinFile = .ok (some key)) :
      Step world .quiet { world with tasks := .keyed .supervisor header request now key ::ₘ rest }
  | pin {world header request now key encoded rest}
      (htasks : world.tasks = .timed .supervisor header request now ::ₘ rest)
      (hheader : oneAssertion header = .ok encoded) (hpin : readPin world.pinFile = .ok none)
      (hpublished : published world.supervisorFile = .ok key) :
      Step world .pinned
        { world with pinFile := .held key.toPem
                     tasks := .keyed .supervisor header request now key ::ₘ rest }
  | pinFails {world header request now key encoded rest}
      (htasks : world.tasks = .timed .supervisor header request now ::ₘ rest)
      (hheader : oneAssertion header = .ok encoded) (hpin : readPin world.pinFile = .ok none)
      (hpublished : published world.supervisorFile = .ok key) (landed : Bool) :
      Step world .pinned
        { world with pinFile := if landed then .held key.toPem else world.pinFile, tasks := rest }
  | readRoutine {world header request now key rest}
      (htasks : world.tasks = .timed .routine header request now ::ₘ rest)
      (hpublished : published world.routineFile = .ok key) :
      Step world .quiet { world with tasks := .keyed .routine header request now key ::ₘ rest }
  | verify {world kind header request now key rest}
      (htasks : world.tasks = .keyed kind header request now key ::ₘ rest) :
      Step world .quiet (world.verify kind header request now key rest)
  | rotate {world given body signedBy new rest} (htasks : world.tasks = .serving given ::ₘ rest)
      (hbody : given.request.captured.document = some body)
      (hsigned : given.evidence.signedBy = some signedBy)
      (hrotate : rotate world.pinFile body signedBy = .ok (some new)) (landed : Bool) :
      Step world (.rotated given)
        { world with pinFile := if landed then .held new.toPem else world.pinFile, tasks := rest }
  | forget {world} (landed : Bool) :
      Step world .forgotten { world with pinFile := if landed then .absent else world.pinFile }

/-- The verifier when its process starts, whatever the key files hold. -/
structure Started (world : World) : Prop where
  guard : ∃ capacity, world.guard = .withCapacity capacity
  tasks : world.tasks = 0
  entered : world.entered = []
  given : world.given = []

inductive Runs (start : World) : List World → World → Prop
  | refl : Runs start [start] start
  | step {past event world next} (hruns : Runs start past world)
      (hstep : Step world event next) : Runs start (past ++ [next]) next

end

open List

variable {raw : List UInt8} {encoded : List Char}

structure Binds (claims : Value) (request : RequestBinding) (now : Int) (assertionId : String)
    (expiresAt : Int) : Prop where
  issued : ∃ issuedAt, smallInt (fieldOf claims "iat") = some issuedAt ∧
    issuedAt ≤ now + Supervisor.assertionClockSkewSeconds
  expires : smallInt (fieldOf claims "exp") = some expiresAt
  live : now ≤ expiresAt
  id : string (fieldOf claims "jti") = some assertionId
  method : string (fieldOf claims "method") = some request.method
  path : string (fieldOf claims "path") = some request.path
  body : pyEq (fieldOf claims "body") request.body = true
  model : bindsOptional claims "model" request.model = true
  decision : bindsOptional claims "decision" request.decision = true
  assurance : bindsOptional claims "assurance" request.assurance = true
  authority : ∃ authority ∈ request.authorities, string (fieldOf claims "authority") = some authority

theorem binds_of_bound {claims request now assertionId expiresAt} (h : bound claims request now = .ok (assertionId, expiresAt)) :
    Binds claims request now assertionId expiresAt := by
  unfold bound at h
  cases hobject : object claims with
  | none =>
    rw [hobject] at h
    cases h
  | some members =>
    obtain rfl := eq_object_of_object hobject
    rw [hobject] at h
    dsimp only at h
    cases hissued : smallInt (field members "iat") with
    | none =>
      rw [hissued] at h
      cases h
    | some issuedAt =>
      cases hexpires : smallInt (field members "exp") with
      | none =>
        rw [hissued, hexpires] at h
        cases h
      | some expiry =>
        rw [hissued, hexpires] at h
        obtain ⟨htime, h⟩ := guard_eq_ok.mp h
        cases hid : string (field members "jti") with
        | none =>
          rw [hid] at h
          cases h
        | some found =>
          rw [hid] at h
          dsimp only at h
          split_ifs at h with hmatches
          cases h
          simp only [Bool.and_eq_true, beq_iff_eq] at hmatches
          obtain ⟨⟨⟨⟨⟨⟨hmethod, hpath⟩, hbody⟩, hmodel⟩, hdecision⟩, hassurance⟩, hauthority⟩ := hmatches
          obtain ⟨authority, hfound, hallowed⟩ := (Option.any_eq_true _ _).mp hauthority
          exact
            { issued := ⟨issuedAt, hissued, by omega⟩
              expires := hexpires
              live := by omega
              id := hid
              method := hmethod
              path := hpath
              body := hbody
              model := hmodel
              decision := hdecision
              assurance := hassurance
              authority := ⟨authority, by simpa using hallowed, hfound⟩ }

theorem fromUtf8_utf8 (text) : fromUtf8 (utf8 text) = some text := fromUTF8?_utf8 text

theorem utf8_of_fromUtf8 {text} (h : fromUtf8 raw = some text) : utf8 text = raw := by
  unfold fromUtf8 String.fromUTF8? at h
  split at h
  · cases h
    rfl
  · cases h

theorem urlSafeChar_plain : ∀ sextet < 64, (Base64.urlSafeChar sextet).toNat < 128 ∧
    32 < (Base64.urlSafeChar sextet).toNat ∧ Base64.urlSafeChar sextet ≠ '=' ∧ Base64.urlSafeChar sextet ≠ '.' := by
  decide

variable {character : Char}

/-- A base64url text has printable characters only, no padding and no dot. -/
theorem encodeBase64url_plain (h : character ∈ encodeBase64url raw) :
    character.toNat < 128 ∧ 32 < character.toNat ∧ character ≠ '=' ∧ character ≠ '.' := by
  obtain ⟨sextet, hsextet, rfl⟩ := mem_map.mp h
  exact urlSafeChar_plain sextet (Base64.lt_of_mem_sextets sextet hsextet)

theorem dot_notMem_encodeBase64url (raw) : '.' ∉ encodeBase64url raw :=
  fun h => (encodeBase64url_plain h).2.2.2 rfl

/-- A base64url text is read as some bytes exactly when it is the one they are written as. -/
theorem decodeBase64url_eq_some : decodeBase64url encoded = some raw ↔ encodeBase64url raw = encoded := by
  unfold decodeBase64url
  constructor
  · intro h
    split_ifs at h
    obtain ⟨found, -, h⟩ := Option.bind_eq_some_iff.mp h
    split_ifs at h with heq
    cases h
    exact heq
  · rintro rfl
    have hplain : ∀ character ∈ encodeBase64url raw, character.toNat < 128 ∧ 32 < character.toNat ∧
        character ≠ '=' ∧ character ≠ '.' := fun character h => encodeBase64url_plain h
    rw [if_neg]
    · exact Option.bind_eq_some_iff.mpr ⟨raw,
        Base64.decodeBare_encodeBare Base64.distinct_urlSafeChar false raw, if_pos rfl⟩
    · simp only [Bool.or_eq_true, Bool.not_eq_true', not_or, Bool.not_eq_false, all_eq_true,
        decide_eq_true_eq, contains_iff_mem]
      exact ⟨fun character h => (hplain character h).1, fun h => (hplain '=' h).2.2.1 rfl⟩

theorem encodeBase64url_injective : Function.Injective encodeBase64url := by
  intro first second h
  have hfirst := decodeBase64url_eq_some.mpr h
  exact Option.some.inj (hfirst.symm.trans (decodeBase64url_eq_some.mpr rfl))

/-- What two signatures cover is the same only for the same two segments. -/
theorem signingInput_injective {head other body rest} (hhead : '.' ∉ head) (hother : '.' ∉ other)
    (hbody : '.' ∉ body) (hrest : '.' ∉ rest) (h : signingInput head body = signingInput other rest) :
    head = other ∧ body = rest := by
  have hlist : head ++ '.' :: body = other ++ '.' :: rest := String.ofList_injective (utf8_injective h)
  have hsplit := congrArg (List.splitOn '.') hlist
  rw [splitOn_append_cons_self_of_not_mem hhead, splitOn_append_cons_self_of_not_mem hother,
    splitOn_eq_singleton hbody, splitOn_eq_singleton hrest] at hsplit
  obtain ⟨rfl, hrest⟩ := List.cons.inj hsplit
  exact ⟨rfl, (List.cons.inj hrest).1⟩

/-- The bytes of the one assertion header of a text. -/
def bearer (encoded : String) : List (List UInt8) := [utf8 "Bearer " ++ utf8 encoded]

theorem bearer_of_oneAssertion {values encoded} (h : oneAssertion values = .ok encoded) : values = bearer encoded := by
  unfold oneAssertion at h
  split at h
  · rename_i value
    split at h
    · rename_i bytes hbytes
      obtain ⟨first, rfl, hfirst⟩ := dropPrefix?_eq_some_iff.mp hbytes
      split_ifs at h
      split at h
      · rename_i text htext
        cases h
        rw [bearer, utf8_of_fromUtf8 htext, eq_of_beq hfirst]
      · cases h
    · cases h
  · cases h

section

variable [Platform]

def segment (value : Value) : List Char := encodeBase64url (utf8 (canonical value))

def headerValue (header : Supervisor.JwtHeader) : Value :=
  objectOf (header.map fun entry => (entry.1, text entry.2))

def covered (header : Supervisor.JwtHeader) (claims : Value) : List UInt8 :=
  signingInput (segment (headerValue header)) (segment claims)

def assertionText (header : Supervisor.JwtHeader) (claims : Value) (signature : List UInt8) : String :=
  String.ofList (segment (headerValue header) ++ '.' :: (segment claims ++ '.' :: encodeBase64url signature))

theorem segment_of_jsonSegment {value} (h : jsonSegment encoded = .ok value) :
    Unique value ∧ encoded = segment value := by
  unfold jsonSegment at h
  cases hdecoded : decodeBase64url encoded with
  | none =>
    rw [hdecoded] at h
    cases h
  | some raw =>
    rw [hdecoded] at h
    dsimp only at h
    split at h
    · rename_i found hparsed
      obtain ⟨text, -, hparse⟩ := Option.map_eq_some_iff.mp hparsed
      split at h
      · rename_i bytes hcanonical
        split_ifs at h with heq
        cases h
        obtain ⟨-, hbytes⟩ := guard_eq_ok.mp hcanonical
        refine ⟨unique_of_parse hparse, ?_⟩
        rw [← heq, ← Except.ok.inj hbytes, segment]
      · cases h
    · cases h

/-- A value that reads back and is small enough is accepted from its segment, its members in name order. -/
theorem jsonSegment_segment {value} (hvalue : Decoded value) (hnesting : nesting value ≤ maxDepth)
    (hsize : (utf8 (canonical value)).length ≤ Supervisor.assertionMaxBytes) :
    jsonSegment (segment value) = .ok (sorted value) := by
  have hdecoded : decodeBase64url (segment value) = some (utf8 (canonical value)) := decodeBase64url_eq_some.mpr rfl
  have hcanonical : Supervisor.canonicalJson (sorted value) = .ok (utf8 (canonical value)) := by
    unfold Supervisor.canonicalJson
    rw [canonical_sorted]
    exact if_neg (Nat.not_lt.mpr hsize)
  have hparsed : (fromUtf8 (utf8 (canonical value))).map parse = some (.ok (sorted value)) := by
    rw [fromUtf8_utf8, Option.map_some, parse_canonical hvalue hnesting]
  rw [jsonSegment, hdecoded]
  dsimp only
  rw [hparsed]
  dsimp only
  rw [hcanonical]
  exact if_pos rfl

theorem canonical_of_headerIs {header : Value} {expected} (hheader : Unique header)
    (hnames : (expected.map Prod.fst).Nodup) (h : headerIs header expected = true) :
    canonical header = canonical (headerValue expected) := by
  obtain ⟨members, hobject, hmatches⟩ := (Option.any_eq_true _ _).mp h
  obtain rfl := eq_object_of_object hobject
  have h : members.length = expected.length ∧
      ∀ entry ∈ expected, string (field members entry.1) = some entry.2 := by
    simpa using hmatches
  have hmap : (expected.map fun entry => (entry.1, text entry.2)).map Prod.fst = expected.map Prod.fst := by
    rw [map_map]
    rfl
  cases hheader with
  | object hnodup hmembers =>
    have hentry : ∀ entry ∈ expected, entry.1 ∈ members.map Prod.fst ∧
        text entry.2 = field members entry.1 := by
      intro entry hentry
      have htext := eq_text_of_string (h.2 entry hentry)
      refine ⟨?_, htext.symm⟩
      by_contra hmissing
      rw [field_of_notMem hmissing] at htext
      cases htext
    have hnamed : ∀ name ∈ members.map Prod.fst, name ∈ expected.map Prod.fst := by
      have hsubset : expected.map Prod.fst ⊆ members.map Prod.fst := by
        intro name hname
        obtain ⟨entry, hmem, rfl⟩ := mem_map.mp hname
        exact (hentry entry hmem).1
      have hlength : (members.map Prod.fst).length ≤ (expected.map Prod.fst).length := by
        rw [length_map, length_map, h.1]
      exact fun name => ((subperm_of_subset hnames hsubset).perm_of_length_le hlength).mem_iff.mpr
    have hfields : sortedFields (expected.map fun entry => (entry.1, text entry.2)) =
        sortedFields members := by
      refine sortedFields_of_entries (hmap.symm ▸ hnames) hnodup ?_ (hmap.symm ▸ hnamed)
      intro entry hmem
      obtain ⟨found, hfound, rfl⟩ := mem_map.mp hmem
      exact ⟨(hentry found hfound).1, congrArg sorted (hentry found hfound).2⟩
    rw [← canonical_sorted, ← canonical_sorted (headerValue expected)]
    exact congrArg (fun fields => canonical (Value.object fields)) hfields.symm

theorem covered_injective {header other claims found} (h : covered header claims = covered other found) :
    segment (headerValue header) = segment (headerValue other) ∧ segment claims = segment found :=
  signingInput_injective (dot_notMem_encodeBase64url _) (dot_notMem_encodeBase64url _)
    (dot_notMem_encodeBase64url _) (dot_notMem_encodeBase64url _) h

theorem splitOn_assertionText (header claims signature) : (assertionText header claims signature).toList.splitOn '.' =
      [segment (headerValue header), segment claims, encodeBase64url signature] := by
  have hsegment : ∀ value, '.' ∉ segment value := fun value => dot_notMem_encodeBase64url _
  rw [assertionText, String.toList_ofList, splitOn_append_cons_self_of_not_mem (hsegment _),
    splitOn_append_cons_self_of_not_mem (hsegment _),
    splitOn_eq_singleton (dot_notMem_encodeBase64url _)]

variable [SignatureScheme]

def Readable (header : Supervisor.JwtHeader) (audience : String) (claims : Value) : Prop :=
  (∃ decoded, jsonSegment (segment (headerValue header)) = .ok decoded ∧ headerIs decoded header = true) ∧
    ∃ untrusted, jsonSegment (segment claims) = .ok untrusted ∧
      Supervisor.canonicalClaims untrusted audience = .ok claims

/-- An accepted assertion is the one text of a closed claim set under a signature of exactly that set. -/
theorem verifiedClaims_eq_ok {header encoded key audience claims} (hnames : (header.map Prod.fst).Nodup)
    (h : verifiedClaims encoded key header audience = .ok claims) :
    ∃ (said : Supervisor.Said) (signature : List UInt8), claims = said.claims audience ∧ said.Closed ∧
      encoded = assertionText header claims signature ∧
      key.verifies (covered header claims) signature = true ∧ Readable header audience claims := by
  unfold verifiedClaims at h
  split at h
  · rename_i head body signature hsplit
    obtain ⟨-, h⟩ := guard_eq_ok.mp h
    obtain ⟨decodedHeader, hhead, h⟩ := bind_eq_ok.mp h
    obtain ⟨untrusted, hbody, h⟩ := bind_eq_ok.mp h
    obtain ⟨hheader, h⟩ := guard_eq_ok.mp h
    obtain ⟨found, hclaims, h⟩ := bind_eq_ok.mp h
    obtain ⟨huniqueHeader, rfl⟩ := segment_of_jsonSegment hhead
    obtain ⟨huniqueBody, rfl⟩ := segment_of_jsonSegment hbody
    obtain ⟨said, rfl, hclosed, hsorted⟩ := Supervisor.canonicalClaims_eq_ok huniqueBody (mapError_eq_ok.mp hclaims)
    have hsegment : segment untrusted = segment (said.claims audience) := by
      rw [segment, segment, ← canonical_sorted untrusted, ← hsorted, canonical_sorted]
    have hheaderSegment : segment decodedHeader = segment (headerValue header) := by
      rw [segment, segment, canonical_of_headerIs huniqueHeader hnames (by simpa using hheader)]
    split at h
    · rename_i bytes hbytes
      split_ifs at h with hverifies
      cases h
      rw [hsegment, hheaderSegment] at hverifies
      refine ⟨said, bytes, rfl, hclosed, ?_, hverifies,
        ⟨decodedHeader, hheaderSegment ▸ hhead, by simpa using hheader⟩,
        untrusted, hsegment ▸ hbody, mapError_eq_ok.mp hclaims⟩
      have hjoined : ['.'].intercalate (encoded.toList.splitOn '.') = encoded.toList := intercalate_splitOn '.'
      rw [hsplit, hheaderSegment, hsegment, ← decodeBase64url_eq_some.mp hbytes] at hjoined
      rw [assertionText, ← String.ofList_toList (s := encoded), ← hjoined]
      simp
    · cases h
  · cases h

end

section

open Supervisor (Said BoundBody BoundPair)

theorem get_optional (said : Said) (audience) : (said.claims audience).get "model" = said.model ∧
      (said.claims audience).get "decision" = said.decision ∧
      (said.claims audience).get "assurance" = said.assurance := by
  cases hmodel : said.model <;> cases hdecision : said.decision <;> cases hassurance : said.assurance <;>
    simp [Said.claims, Supervisor.optionalMember, objectOf, Value.get, hmodel, hdecision, hassurance]

/-- Two bindings of two texts are equal when the code finds them equal. -/
theorem eq_of_pyEq_pair {first second left right} (hne : first ≠ second)
    (hleft : BoundPair first second left) (hright : BoundPair first second right)
    (h : pyEq left right = true) : left = right := by
  obtain ⟨a, b, rfl⟩ := hleft
  obtain ⟨c, d, rfl⟩ := hright
  have hequal : a = c ∧ b = d := by
    simpa [objectOf, text, pyEq, pyEqMembers, find?_cons, hne] using h
  rw [hequal.1, hequal.2]

/-- Two body bindings are equal when the code finds them equal. -/
theorem eq_of_pyEq_body {left right} (hleft : BoundBody left) (hright : BoundBody right)
    (h : pyEq left right = true) : left = right := by
  cases hleft <;> cases hright <;>
    simp_all [objectOf, text, int, pyEq, pyEqMembers, numeric, numbersEqual]

theorem eq_of_bindsOptional {claims name first second found expected}
    (hne : first ≠ second) (hget : claims.get name = found) (hfound : ∀ value ∈ found, BoundPair first second value)
    (hexpected : ∀ value ∈ expected, BoundPair first second value)
    (h : bindsOptional claims name expected = true) : found = expected := by
  unfold bindsOptional at h
  rw [hget] at h
  cases found with
  | none =>
    cases expected with
    | none => rfl
    | some value => cases h
  | some value =>
    cases expected with
    | none => cases h
    | some other => rw [eq_of_pyEq_pair hne (hfound value rfl) (hexpected other rfl) h]

variable [Platform]

theorem boundBody_binding (captured : Captured) : BoundBody captured.binding := by
  cases captured with
  | none => exact .none
  | json raw => exact .json _ _
  | file length filename mediaType => exact .file _ _ _

theorem Kind.boundBody (kind : Kind) (request) : BoundBody (kind.binding request).body := by
  cases kind <;> exact boundBody_binding request.captured

theorem Kind.boundPairs (kind : Kind) (request) :
    (∀ model ∈ (kind.binding request).model, BoundPair "provider" "key_sha256" model) ∧
      (∀ decision ∈ (kind.binding request).decision, BoundPair "provider" "key_sha256" decision) ∧
      ∀ assurance ∈ (kind.binding request).assurance, BoundPair "kind" "challenge_id" assurance := by
  cases kind with
  | supervisor =>
    refine ⟨?_, ?_, ?_⟩
    all_goals
      intro value hvalue
      obtain ⟨found, -, rfl⟩ := Option.map_eq_some_iff.mp hvalue
      exact ⟨_, _, rfl⟩
  | routine => exact ⟨nofun, nofun, nofun⟩

/-- A closed claim set that names exactly a request, within its time at a reading of the clock. -/
structure Names (said : Said) (request : RequestBinding) (now : Int) : Prop where
  closed : said.Closed
  method : said.method = request.method
  path : said.path = request.path
  body : said.body = request.body
  model : said.model = request.model
  decision : said.decision = request.decision
  assurance : said.assurance = request.assurance
  authority : said.authority ∈ request.authorities
  issued : said.issuedAt ≤ now + Supervisor.assertionClockSkewSeconds
  live : now ≤ said.expiresAt

theorem names_of_binds {said audience} {kind : Kind} {request now expiresAt assertionId}
    (hclosed : said.Closed) (h : Binds (said.claims audience) (kind.binding request) now assertionId expiresAt) :
    Names said (kind.binding request) now ∧ said.assertionId = assertionId ∧ said.expiresAt = expiresAt := by
  obtain ⟨hmodel, hdecision, hassurance⟩ := get_optional said audience
  obtain ⟨hmodels, hdecisions, hassurances⟩ := kind.boundPairs request
  obtain ⟨issuedAt, hissued, hskew⟩ := h.issued
  obtain ⟨authority, hallowed, hauthority⟩ := h.authority
  have hissuedAt : said.issuedAt = issuedAt := Option.some.inj hissued
  have hexpiresAt : said.expiresAt = expiresAt := Option.some.inj h.expires
  have hkind : said.authority = authority := Option.some.inj hauthority
  refine ⟨?_, Option.some.inj h.id, hexpiresAt⟩
  exact
    { closed := hclosed
      method := Option.some.inj h.method
      path := Option.some.inj h.path
      body := eq_of_pyEq_body hclosed.body (kind.boundBody request) h.body
      model := eq_of_bindsOptional (by decide) hmodel hclosed.model hmodels h.model
      decision := eq_of_bindsOptional (by decide) hdecision hclosed.decision hdecisions h.decision
      assurance := eq_of_bindsOptional (by decide) hassurance hclosed.assurance hassurances h.assurance
      authority := hkind ▸ hallowed
      issued := hissuedAt ▸ hskew
      live := hexpiresAt ▸ h.live }

end

variable {characters : List Char}

section

theorem utf8EncodeChar_ascii (h : character.toNat < 128) :
    String.utf8EncodeChar character = [UInt8.ofNat character.toNat] :=
  if_pos (Nat.le_of_lt_succ h)

theorem length_utf8_ofList_le (characters) : (utf8 (String.ofList characters)).length ≤ 4 * characters.length := by
  rw [utf8_ofList]
  induction characters with
  | nil => rfl
  | cons first rest ih =>
    have hfirst : (String.utf8EncodeChar first).length ≤ 4 := by
      rw [String.length_utf8EncodeChar]
      exact first.utf8Size_le_four
    rw [flatMap_cons, length_append, length_cons]
    omega

theorem length_utf8_of_ascii (h : ∀ character ∈ characters, character.toNat < 128) :
    (utf8 (String.ofList characters)).length = characters.length := by
  have hbytes : characters.flatMap String.utf8EncodeChar =
      characters.flatMap fun character => [UInt8.ofNat character.toNat] :=
    flatMap_congr fun character hcharacter => utf8EncodeChar_ascii (h character hcharacter)
  rw [utf8_ofList, hbytes, ← map_eq_flatMap, length_map]

theorem length_encodeBase64url_le (raw) : 3 * (encodeBase64url raw).length ≤ 4 * raw.length + 2 := by
  rw [encodeBase64url, Base64.encodeBare, length_map]
  fun_induction Base64.sextets raw with
  | case1 first second third rest bits ih =>
    simp only [length_cons] at ih ⊢
    omega
  | case2 | case3 => simp
  | case4 => simp

/-- A header of printable characters is read as its one assertion. -/
theorem oneAssertion_bearer (hsome : characters ≠ []) (hlength : characters.length ≤ maxAssertionBytes)
    (hplain : ∀ character ∈ characters, 32 < character.toNat ∧ character.toNat < 128) :
    oneAssertion (bearer (String.ofList characters)) = .ok (String.ofList characters) := by
  have hbytes : utf8 (String.ofList characters) = characters.map fun character => .ofNat character.toNat := by
    rw [utf8_ofList, map_eq_flatMap]
    exact flatMap_congr fun character h => utf8EncodeChar_ascii (hplain character h).2
  have hscheme : (utf8 "Bearer " ++ utf8 (String.ofList characters)).dropPrefix? (utf8 "Bearer ") =
      some (utf8 (String.ofList characters)) := dropPrefix?_append_of_beq _ (beq_self_eq_true _)
  have hadmitted : (!(utf8 (String.ofList characters)).isEmpty &&
      (utf8 (String.ofList characters)).length ≤ maxAssertionBytes &&
      (utf8 (String.ofList characters)).all fun byte =>
        byte < 128 && !(9 ≤ byte && byte ≤ 13) && !(0x1c ≤ byte && byte ≤ 0x20)) = true := by
    rw [hbytes, Bool.and_eq_true, Bool.and_eq_true, length_map, all_map, all_eq_true]
    refine ⟨⟨by simpa using hsome, by simpa using hlength⟩, ?_⟩
    intro character hcharacter
    obtain ⟨hlow, hhigh⟩ := hplain character hcharacter
    have hnat : (UInt8.ofNat character.toNat).toNat = character.toNat := by
      rw [UInt8.toNat_ofNat', Nat.mod_eq_of_lt (by omega)]
    simp only [Function.comp_apply, Bool.and_eq_true, Bool.not_eq_true', Bool.and_eq_false_iff,
      decide_eq_true_eq, decide_eq_false_iff_not, UInt8.lt_iff_toNat_lt, UInt8.le_iff_toNat_le, hnat]
    refine ⟨⟨?_, .inr ?_⟩, .inr ?_⟩
    · exact hhigh
    · exact fun h => absurd (lt_of_lt_of_le hlow h) (by decide)
    · exact fun h => absurd (lt_of_lt_of_le hlow h) (by decide)
  unfold oneAssertion bearer
  dsimp only
  rw [hscheme]
  dsimp only
  rw [if_pos hadmitted, fromUtf8_utf8]

variable [Platform]

theorem isEmpty_of_jsonSegment {result} (h : jsonSegment encoded = .ok result) : encoded.isEmpty = false := by
  cases encoded with
  | nil =>
    have hdecoded : decodeBase64url [] = some (utf8 "") := rfl
    have hparse : ∃ error, parse "" = .error error := ⟨_, rfl⟩
    obtain ⟨error, hparse⟩ := hparse
    rw [jsonSegment, hdecoded] at h
    dsimp only at h
    rw [fromUtf8_utf8, Option.map_some, hparse] at h
    cases h
  | cons first rest => rfl

variable [SignatureScheme] {value claims decoded untrusted : Value} {signature : List UInt8}

theorem verifiedClaims_assertionText {header audience key} (hheader : jsonSegment (segment (headerValue header)) = .ok decoded)
    (his : headerIs decoded header = true) (hvalue : jsonSegment (segment value) = .ok untrusted)
    (hclaims : Supervisor.canonicalClaims untrusted audience = .ok claims)
    (hverifies : key.verifies (covered header value) signature = true) (hsome : signature ≠ []) :
    verifiedClaims (assertionText header value signature) key header audience = .ok claims := by
  have hheaderSome := isEmpty_of_jsonSegment hheader
  have hvalueSome := isEmpty_of_jsonSegment hvalue
  have hsignatureSome : (encodeBase64url signature).isEmpty = false := by
    cases hencoded : encodeBase64url signature with
    | nil => exact absurd (encodeBase64url_injective (hencoded.trans (show [] = encodeBase64url [] from rfl))) hsome
    | cons first rest => rfl
  have hsignature : decodeBase64url (encodeBase64url signature) = some signature := decodeBase64url_eq_some.mpr rfl
  unfold covered at hverifies
  unfold verifiedClaims
  rw [splitOn_assertionText]
  dsimp only
  rw [hheaderSome, hvalueSome, hsignatureSome]
  simp only [Bool.or_self, Bool.false_eq_true, if_false, hheader, hvalue, ok_bind, his, Bool.not_true, hclaims,
    Except.mapError, hsignature, hverifies, if_true]

theorem claimsOf_bearer {key kind} (hheader : jsonSegment (segment (headerValue kind.header)) = .ok decoded)
    (his : headerIs decoded kind.header = true) (hvalue : jsonSegment (segment value) = .ok untrusted)
    (hclaims : Supervisor.canonicalClaims untrusted kind.audience = .ok claims)
    (hverifies : key.verifies (covered kind.header value) signature = true) (hsome : signature ≠ [])
    (hlength : (segment (headerValue kind.header)).length + (segment value).length +
      (encodeBase64url signature).length + 2 ≤ maxAssertionBytes) :
    claimsOf kind (bearer (assertionText kind.header value signature)) key = .ok claims := by
  have hplain : ∀ raw : List UInt8, ∀ character ∈ encodeBase64url raw,
      32 < character.toNat ∧ character.toNat < 128 := fun raw character h =>
    ⟨(encodeBase64url_plain h).2.1, (encodeBase64url_plain h).1⟩
  have hone : oneAssertion (bearer (assertionText kind.header value signature)) =
      .ok (assertionText kind.header value signature) := by
    refine oneAssertion_bearer (by simp) ?_ ?_
    · simp only [length_append, length_cons]
      omega
    · simp only [forall_mem_append, forall_mem_cons]
      exact ⟨hplain _, by decide, hplain _, by decide, hplain _⟩
  unfold claimsOf
  rw [hone, ok_bind]
  exact verifiedClaims_assertionText hheader his hvalue hclaims hverifies hsome

end

variable [Platform] [SignatureScheme]

/-- The last section of a verification: it never entered the guard, or it entered and its evidence, if
any, is of the id it entered with. -/
inductive Verified (world : World) (kind : Kind) (header : List (List UInt8)) (request : Request) (now : Int)
    (key : PublicKey) (rest : Multiset Task) (next : World) : Prop
  | refused (htasks : next.tasks = rest) (hguard : next.guard = world.guard) (hentered : next.entered = world.entered)
      (hgiven : next.given = world.given)
  | denied {claims assertionId expiresAt refusal} (htasks : next.tasks = rest)
      (hbound : bound claims (kind.binding request) now = .ok (assertionId, expiresAt))
      (hconsume : world.guard.consume assertionId expiresAt now = (.error refusal, next.guard))
      (hentered : next.entered = world.entered ++ [⟨assertionId, expiresAt, now, false⟩])
      (hgiven : next.given = world.given)
  | admitted {claims assertionId expiresAt given}
      (htasks : next.tasks = given.map Task.serving + rest)
      (hclaims : claimsOf kind header key = .ok claims)
      (hbound : bound claims (kind.binding request) now = .ok (assertionId, expiresAt))
      (hconsume : world.guard.consume assertionId expiresAt now = (.ok (), next.guard))
      (hentered : next.entered = world.entered ++ [⟨assertionId, expiresAt, now, true⟩])
      (hgiven : next.given = world.given ++ given)
      (hnew : given = [] ∨ ∃ evidence, given = [⟨kind, header, request, now, key, claims, evidence⟩] ∧
        evidenceOf kind key claims = some evidence)

theorem verified (world kind header request now key rest) :
    Verified world kind header request now key rest (world.verify kind header request now key rest) := by
  unfold World.verify
  cases hclaims : claimsOf kind header key with
  | error refusal => exact .refused rfl rfl rfl rfl
  | ok claims =>
    dsimp only
    cases hbound : bound claims (kind.binding request) now with
    | error refusal => exact .refused rfl rfl rfl rfl
    | ok result =>
      obtain ⟨assertionId, expiresAt⟩ := result
      dsimp only
      rcases hconsume : world.guard.consume assertionId expiresAt now with ⟨refusal | admitted, guard⟩
      · exact .denied rfl hbound hconsume rfl rfl
      · dsimp only
        cases hevidence : evidenceOf kind key claims with
        | none =>
          refine .admitted ?_ hclaims hbound hconsume rfl (append_nil _).symm (.inl rfl)
          exact (Multiset.zero_add rest).symm
        | some evidence =>
          exact .admitted rfl hclaims hbound hconsume rfl rfl (.inr ⟨evidence, rfl, hevidence⟩)

theorem verify_pinFile (world : World) (kind header request now) (key : PublicKey) (rest) :
    (world.verify kind header request now key rest).pinFile = world.pinFile := by
  unfold World.verify
  repeat' split
  all_goals rfl

/-- Only the last section of a verification enters the guard or gives evidence. -/
theorem Step.cases_verify {world event next} (h : Step world event next) :
    (next.guard = world.guard ∧ next.entered = world.entered ∧ next.given = world.given) ∨
      ∃ kind header request now key rest, world.tasks = .keyed kind header request now key ::ₘ rest ∧
        next = world.verify kind header request now key rest := by
  cases h with
  | verify htasks => exact .inr ⟨_, _, _, _, _, _, htasks, rfl⟩
  | tick | publish | arrive | readClock | refuse | readPinned | pin | pinFails | readRoutine | rotate
  | forget => exact .inl ⟨rfl, rfl, rfl⟩

end ShimpzTeams.Authority
