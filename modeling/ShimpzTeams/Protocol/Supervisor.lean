import ShimpzTeams.Library.Base64
import ShimpzTeams.Protocol.Canonical

/-!
# The Supervisor assertion contract

One closed claim set for each request, in canonical JSON. A Routine run is
started by a machine identity whose claims bind a run's lease and no model,
decision or person. Each check returns what it was given, up to the order of
members, so a claim set has one encoding.
-/

namespace ShimpzTeams.Protocol.Supervisor

open StrictJson Library

def assertionAudience : String := "team-local"

def assertionKeyId : String := "local-supervisor-v1"

def assertionMaxTtlSeconds : Int := 15

/-- The only decision credential an assertion can bind. -/
def decisionProvider : String := "typesafe"

def assertionClockSkewSeconds : Int := 5

def assertionMaxBytes : Nat := 4096

def maxJsonBodyBytes : Int := 256 * 1024

def maxFileUploadBytes : Int := 25 * 1024 * 1024

def maxFilenameBytes : Nat := 255

def maxMediaTypeChars : Nat := 127

abbrev JwtHeader := List (String × String)

def jwtHeader : JwtHeader := [("alg", "EdDSA"), ("kid", assertionKeyId), ("typ", "JWT")]

def routineAudience : String := "team-local-routine"

def routineKeyId : String := "local-routine-v1"

def routineAuthority : String := "routine"

def routineJwtHeader : JwtHeader := [("alg", "EdDSA"), ("kid", routineKeyId), ("typ", "JWT")]

def emptySha256 : String := "e3b0c44298fc1c149afbf4c8996fb92427ae41e4649b934ca495991b7852b855"

/-- The human assurances an assertion may bind. -/
def assuranceKinds : List String := ["auth:passkey", "auth:password", "auth:totp"]

def authorityKinds : List String := ["host-reset", "session"]

def methods : List String := ["DELETE", "GET", "PATCH", "POST", "PUT"]

def required : List String :=
  ["v", "aud", "sub", "authority", "authority_sha256", "jti", "iat", "exp", "method", "path", "body"]

def optional : List String := ["model", "decision", "assurance"]

/-- `^[0-9a-f]{32}$` -/
def hex32 (value : String) : Bool := isHexText 32 value

/-- `^[0-9a-f]{64}$` -/
def hex64 (value : String) : Bool := isHexText 64 value

/-- A slash, then one or more lowercase letters, digits, underscores, slashes and hyphens. -/
def pathRe (value : String) : Bool :=
  match value.toList with
  | '/' :: rest =>
    !rest.isEmpty && rest.all fun character => isLowerAlnum character || ['_', '/', '-'].contains character
  | _ => false

/-- `^[a-z][a-z0-9-]{0,31}$` -/
def providerRe (value : String) : Bool :=
  isHeaded isLowerAscii (fun character => isLowerAlnum character || character == '-') 31 value.toList

/-- `^[A-Za-z0-9_-]{43}$` -/
def rawPublicKeyRe (value : String) : Bool :=
  value.length == 43 && value.toList.all fun character => isAlnum character || ['_', '-'].contains character

/-- An assertion outside the closed contract. -/
inductive SupervisorAssertionError where
  | claims
  | unsupported
  | subject
  | nonce
  | instant (label : String)
  | lifetime
  | method
  | path
  | digest (label : String)
  | body
  | emptyBody
  | emptyDigest
  | jsonBody
  | fileBody
  | model
  | modelProvider
  | decision
  | assurance
  | authority
  | routineBinding
  | tooLarge
  deriving DecidableEq, Repr

abbrev Checked (α : Type) := Except SupervisorAssertionError α

def orRefuse {α : Type} (refusal : SupervisorAssertionError) : Option α → Checked α
  | some value => .ok value
  | none => .error refusal

/-- `[a-z0-9][a-z0-9!#$&^_.+-]*`: one side of a media type. -/
def isMediaPart : List Char → Bool
  | [] => false
  | head :: tail =>
    isLowerAlnum head && tail.all fun character =>
      isLowerAlnum character || ['!', '#', '$', '&', '^', '_', '.', '+', '-'].contains character

/-- Two such sides of one slash. -/
def mediaTypeRe (value : String) : Bool :=
  match value.toList.splitOn '/' with
  | [type, subtype] => isMediaPart type && isMediaPart subtype
  | _ => false

def instant (value : Value) (label : String) : Checked Int :=
  orRefuse (.instant label)
    ((smallInt value).filter fun instant => 1 ≤ instant && instant ≤ 9999999999)

def digest (value : Value) (label : String) : Checked Value :=
  orRefuse (.digest label) (((string value).filter hex64).map fun _ => value)

def emptyBody (value : Value) : Checked Value := do
  let members ← orRefuse .emptyBody ((exactObject value ["kind", "length", "sha256"]).filter fun members =>
    smallInt (field members "length") == some 0)
  let sha256 ← digest (field members "sha256") "empty body digest"
  if string sha256 ≠ some emptySha256 then .error .emptyDigest
  else .ok (objectOf [("kind", text "none"), ("length", int 0), ("sha256", sha256)])

def jsonBody (value : Value) : Checked Value := do
  let members ← orRefuse .jsonBody ((exactObject value ["kind", "length", "sha256"]).filter fun members =>
    (smallInt (field members "length")).any fun length => 2 ≤ length && length ≤ maxJsonBodyBytes)
  let sha256 ← digest (field members "sha256") "JSON body digest"
  .ok (objectOf [("kind", text "json"), ("length", field members "length"), ("sha256", sha256)])

def filename (name : String) : Bool :=
  !name.isEmpty && strip name == name && name != "." && name != ".." &&
    !name.toList.any (fun character => character == '/' || character == '\\') &&
    (utf8 name).length ≤ maxFilenameBytes

def fileBody (value : Value) : Checked Value := do
  let members ← orRefuse .fileBody ((exactObject value ["kind", "length", "filename", "media_type"]).filter
    fun members =>
      ((smallInt (field members "length")).any fun length => 1 ≤ length && length ≤ maxFileUploadBytes) &&
        (string (field members "filename")).any filename &&
        (string (field members "media_type")).any fun mediaType =>
          1 ≤ mediaType.length && mediaType.length ≤ maxMediaTypeChars && mediaTypeRe mediaType)
  .ok (objectOf [("kind", text "file"), ("length", field members "length"),
    ("filename", field members "filename"), ("media_type", field members "media_type")])

def body (value : Value) : Checked Value := do
  let members ← orRefuse .body (object value)
  match string (field members "kind") with
  | some "none" => emptyBody value
  | some "json" => jsonBody value
  | some "file" => fileBody value
  | _ => .error .body

def model (value : Value) : Checked Value := do
  let members ← orRefuse .model (exactObject value ["provider", "key_sha256"])
  if !isFullValue providerRe (field members "provider") then .error .modelProvider
  else do
    let key ← digest (field members "key_sha256") "model credential digest"
    .ok (objectOf [("provider", field members "provider"), ("key_sha256", key)])

def decision (value : Value) : Checked Value := do
  let members ← orRefuse .decision ((exactObject value ["provider", "key_sha256"]).filter fun members =>
    string (field members "provider") == some decisionProvider)
  let key ← digest (field members "key_sha256") "decision credential digest"
  .ok (objectOf [("provider", text decisionProvider), ("key_sha256", key)])

def assurance (value : Value) : Checked Value := do
  let members ← orRefuse .assurance ((exactObject value ["kind", "challenge_id"]).filter fun members =>
    (string (field members "kind")).any assuranceKinds.contains && isFullValue hex32 (field members "challenge_id"))
  .ok (objectOf [("kind", field members "kind"), ("challenge_id", field members "challenge_id")])

def admittedPath (path : String) : Bool :=
  path.toList.all (fun character => character.toNat < 128) && (utf8 path).length ≤ 512 && pathRe path &&
    !(path.toList.zip path.toList.tail).contains ('/', '/') && path.toList.getLast? != some '/'

def target (members : List (String × Value)) : Checked (Value × Value) :=
  if !(string (field members "method")).any methods.contains then .error .method
  else if !(string (field members "path")).any admittedPath then .error .path
  else .ok (field members "method", field members "path")

/-- The members of a claim set whose names are the closed set, its version and audience supported. -/
def envelope (value : Value) (audience : String) : Checked (List (String × Value)) := do
  let members ← orRefuse .claims (object value)
  if !(members.all fun member => required.contains member.1 || optional.contains member.1) ||
      !(required.all fun name => members.any fun member => member.1 == name) then .error .claims
  else if ! [assertionAudience, routineAudience].contains audience ||
      smallInt (field members "v") != some 1 || string (field members "aud") != some audience then
    .error .unsupported
  else .ok members

def identity (members : List (String × Value)) : Checked (Value × Value) :=
  if !isFullValue hex32 (field members "sub") then .error .subject
  else if !isFullValue hex32 (field members "jti") then .error .nonce
  else .ok (field members "sub", field members "jti")

def authority (members : List (String × Value)) (routine : Bool) : Checked Value :=
  if !(string (field members "authority")).any fun kind =>
      ((kind == routineAuthority) == routine) && (routine || authorityKinds.contains kind) then
    .error .authority
  else if routine && optional.any fun name => members.any fun member => member.1 == name then
    .error .routineBinding
  else .ok (field members "authority")

def binding (members : List (String × Value)) (name : String) (check : Value → Checked Value) :
    Checked (List (String × Value)) :=
  match members.find? fun member => member.1 == name with
  | some member => (check member.2).map fun value => [(name, value)]
  | none => .ok []

/-- `canonical_claims`: one closed canonical claim set of the Supervisor or the Routine identity. -/
def canonicalClaims (value : Value) (audience : String) : Checked Value := do
  let members ← envelope value audience
  let (subject, nonce) ← identity members
  let issuedAt ← instant (field members "iat") "assertion issued time"
  let expiresAt ← instant (field members "exp") "assertion expiry"
  if ¬(1 ≤ expiresAt - issuedAt ∧ expiresAt - issuedAt ≤ assertionMaxTtlSeconds) then .error .lifetime
  else do
    let (method, path) ← target members
    let authoritySha256 ← digest (field members "authority_sha256") "authority digest"
    let body ← body (field members "body")
    let authority ← authority members (audience == routineAudience)
    let model ← binding members "model" model
    let decision ← binding members "decision" decision
    let assurance ← binding members "assurance" assurance
    .ok (objectOf ([("v", int 1), ("aud", text audience), ("sub", subject), ("authority", authority),
      ("authority_sha256", authoritySha256), ("jti", nonce), ("iat", field members "iat"),
      ("exp", field members "exp"), ("method", method), ("path", path), ("body", body)] ++
      model ++ decision ++ assurance))

/-- `canonical_json`: canonical JSON within the bound of an assertion. -/
def canonicalJson [Platform] (value : Value) : Checked (List UInt8) :=
  let encoded := utf8 (canonical value)
  if assertionMaxBytes < encoded.length then .error .tooLarge else .ok encoded

/-- Python's reading of base64: the bits that complete no byte are dropped. -/
def droppingBytes (buffer bits : Nat) : List Nat → List UInt8
  | [] => []
  | sextet :: rest =>
    let buffer := buffer * 64 + sextet
    if 8 ≤ bits + 6 then
      .ofNat (buffer / 2 ^ (bits + 6 - 8)) :: droppingBytes buffer (bits + 6 - 8) rest
    else droppingBytes buffer (bits + 6) rest

/-- `canonical_key_rotation`: the one key a rotation names, in canonical unpadded base64url. -/
def canonicalKeyRotation (value : Value) : Option String := do
  let members ← exactObject value ["public_key"]
  let key ← (string (field members "public_key")).filter rawPublicKeyRe
  let sextets ← (key.toList.takeWhile (· != '=')).mapM (Base64.sextetOf Base64.urlSafeChar)
  if Base64.encodeBare Base64.urlSafeChar (droppingBytes 0 0 sextets) = key.toList then some key else none

open List

theorem orRefuse_eq_ok {refusal α found} {value : α} : orRefuse refusal found = .ok value ↔ found = some value := by
  cases found <;> simp [orRefuse]

theorem instant_eq_ok {value label found} (h : instant value label = .ok found) :
    value = int found ∧ 1 ≤ found ∧ found ≤ 9999999999 := by
  obtain ⟨hint, hrange⟩ := Option.filter_eq_some_iff.mp (orRefuse_eq_ok.mp h)
  simp only [Bool.and_eq_true, decide_eq_true_eq] at hrange
  exact ⟨eq_int_of_smallInt hint, hrange⟩

theorem digest_eq_ok {value result label} (h : digest value label = .ok result) :
    result = value ∧ ∃ found, value = text found := by
  obtain ⟨found, hfound, rfl⟩ := Option.map_eq_some_iff.mp (orRefuse_eq_ok.mp h)
  exact ⟨rfl, found, eq_text_of_string (Option.filter_eq_some_iff.mp hfound).1⟩

theorem eq_text_of_isFullValue {pattern value}
    (h : isFullValue pattern value = true) : ∃ found, value = text found := by
  cases value with
  | string found => exact ⟨found, rfl⟩
  | null | bool | number | array | object => cases h

theorem exactObject_of_filter {refusal value names keep members} (h : orRefuse refusal ((exactObject value names).filter keep) = .ok members) :
    exactObject value names = some members ∧ keep members = true :=
  Option.filter_eq_some_iff.mp (orRefuse_eq_ok.mp h)

section

/-- A body that an assertion binds, in the one form it is admitted in. -/
inductive BoundBody : Value → Prop where
  | none : BoundBody (objectOf [("kind", text "none"), ("length", int 0), ("sha256", text emptySha256)])
  | json (length : Int) (sha256 : String) :
      BoundBody (objectOf [("kind", text "json"), ("length", int length), ("sha256", text sha256)])
  | file (length : Int) (filename mediaType : String) :
      BoundBody (objectOf [("kind", text "file"), ("length", int length), ("filename", text filename),
        ("media_type", text mediaType)])

variable {value result : Value}

theorem emptyBody_eq_ok (hvalue : Unique value) (hkind : string (fieldOf value "kind") = some "none")
    (h : emptyBody value = .ok result) : BoundBody result ∧ sorted result = sorted value := by
  obtain ⟨members, hmembers, h⟩ := bind_eq_ok.mp h
  obtain ⟨hexact, hlength⟩ := exactObject_of_filter hmembers
  obtain ⟨sha256, hdigest, h⟩ := bind_eq_ok.mp h
  obtain ⟨rfl, found, hsha⟩ := digest_eq_ok hdigest
  obtain ⟨hempty, h⟩ := guard_eq_ok.mp h
  cases h
  rw [fieldOf_of_exactObject hexact] at hkind
  have hempty' : found = emptySha256 := by
    rw [hsha] at hempty
    exact Option.some.inj (not_not.mp hempty)
  have hsorted := sorted_of_exactObject hvalue (by decide) hexact
  simp only [map_cons, map_nil, eq_text_of_string hkind, eq_int_of_smallInt (beq_iff_eq.mp hlength), hsha] at hsorted
  rw [hsha, hempty']
  exact ⟨.none, by rw [hsorted, hempty']⟩

theorem jsonBody_eq_ok (hvalue : Unique value) (hkind : string (fieldOf value "kind") = some "json")
    (h : jsonBody value = .ok result) : BoundBody result ∧ sorted result = sorted value := by
  obtain ⟨members, hmembers, h⟩ := bind_eq_ok.mp h
  obtain ⟨hexact, hlength⟩ := exactObject_of_filter hmembers
  obtain ⟨sha256, hdigest, h⟩ := bind_eq_ok.mp h
  obtain ⟨rfl, found, hsha⟩ := digest_eq_ok hdigest
  cases h
  rw [fieldOf_of_exactObject hexact] at hkind
  obtain ⟨length, hint, -⟩ := (Option.any_eq_true _ _).mp hlength
  have hsorted := sorted_of_exactObject hvalue (by decide) hexact
  simp only [map_cons, map_nil, eq_text_of_string hkind, eq_int_of_smallInt hint, hsha] at hsorted
  rw [hsha, eq_int_of_smallInt hint]
  exact ⟨.json length found, hsorted.symm⟩

theorem fileBody_eq_ok (hvalue : Unique value) (hkind : string (fieldOf value "kind") = some "file")
    (h : fileBody value = .ok result) : BoundBody result ∧ sorted result = sorted value := by
  obtain ⟨members, hmembers, h⟩ := bind_eq_ok.mp h
  obtain ⟨hexact, hfields⟩ := exactObject_of_filter hmembers
  cases h
  rw [fieldOf_of_exactObject hexact] at hkind
  simp only [Bool.and_eq_true] at hfields
  obtain ⟨⟨hlength, hfilename⟩, hmedia⟩ := hfields
  obtain ⟨length, hint, -⟩ := (Option.any_eq_true _ _).mp hlength
  obtain ⟨filename, hname, -⟩ := (Option.any_eq_true _ _).mp hfilename
  obtain ⟨mediaType, htype, -⟩ := (Option.any_eq_true _ _).mp hmedia
  have hsorted := sorted_of_exactObject hvalue (by decide) hexact
  simp only [map_cons, map_nil, eq_text_of_string hkind, eq_int_of_smallInt hint,
    eq_text_of_string hname, eq_text_of_string htype] at hsorted
  rw [eq_int_of_smallInt hint, eq_text_of_string hname, eq_text_of_string htype]
  exact ⟨.file length filename mediaType, hsorted.symm⟩

theorem body_eq_ok (hvalue : Unique value) (h : body value = .ok result) :
    BoundBody result ∧ sorted result = sorted value := by
  obtain ⟨members, hmembers, h⟩ := bind_eq_ok.mp h
  have hfield : fieldOf value "kind" = field members "kind" := by
    rw [eq_object_of_object (orRefuse_eq_ok.mp hmembers)]
    rfl
  rw [← hfield] at h
  split at h
  · exact emptyBody_eq_ok hvalue ‹_› h
  · exact jsonBody_eq_ok hvalue ‹_› h
  · exact fileBody_eq_ok hvalue ‹_› h
  · cases h

def BoundPair (first second : String) (value : Value) : Prop :=
  ∃ left right, value = objectOf [(first, text left), (second, text right)]

theorem model_eq_ok (hvalue : Unique value) (h : model value = .ok result) :
    BoundPair "provider" "key_sha256" result ∧ sorted result = sorted value := by
  obtain ⟨members, hmembers, h⟩ := bind_eq_ok.mp h
  obtain ⟨hprovider, h⟩ := guard_eq_ok.mp h
  obtain ⟨key, hdigest, h⟩ := bind_eq_ok.mp h
  obtain ⟨rfl, sha256, hsha⟩ := digest_eq_ok hdigest
  cases h
  obtain ⟨provider, hfound⟩ := eq_text_of_isFullValue (by simpa using hprovider)
  have hsorted := sorted_of_exactObject hvalue (by decide) (orRefuse_eq_ok.mp hmembers)
  simp only [map_cons, map_nil, hfound, hsha] at hsorted
  rw [hfound, hsha]
  exact ⟨⟨provider, sha256, rfl⟩, hsorted.symm⟩

theorem decision_eq_ok (hvalue : Unique value) (h : decision value = .ok result) :
    BoundPair "provider" "key_sha256" result ∧ sorted result = sorted value := by
  obtain ⟨members, hmembers, h⟩ := bind_eq_ok.mp h
  obtain ⟨hexact, hprovider⟩ := exactObject_of_filter hmembers
  obtain ⟨key, hdigest, h⟩ := bind_eq_ok.mp h
  obtain ⟨rfl, sha256, hsha⟩ := digest_eq_ok hdigest
  cases h
  have hsorted := sorted_of_exactObject hvalue (by decide) hexact
  simp only [map_cons, map_nil, eq_text_of_string (beq_iff_eq.mp hprovider), hsha] at hsorted
  rw [hsha]
  exact ⟨⟨decisionProvider, sha256, rfl⟩, hsorted.symm⟩

theorem assurance_eq_ok (hvalue : Unique value) (h : assurance value = .ok result) :
    BoundPair "kind" "challenge_id" result ∧ sorted result = sorted value := by
  obtain ⟨members, hmembers, h⟩ := bind_eq_ok.mp h
  obtain ⟨hexact, hfields⟩ := exactObject_of_filter hmembers
  cases h
  rw [Bool.and_eq_true] at hfields
  obtain ⟨kind, hkind, -⟩ := (Option.any_eq_true _ _).mp hfields.1
  obtain ⟨challenge, hchallenge⟩ := eq_text_of_isFullValue hfields.2
  have hsorted := sorted_of_exactObject hvalue (by decide) hexact
  simp only [map_cons, map_nil, eq_text_of_string hkind, hchallenge] at hsorted
  rw [eq_text_of_string hkind, hchallenge]
  exact ⟨⟨kind, challenge, rfl⟩, hsorted.symm⟩

end

variable {name : String} {found : Option Value}

def optionalMember (name : String) (value : Option Value) : List (String × Value) :=
  value.toList.map fun value => (name, value)

theorem forall_mem_optionalMember {holds : String × Value → Prop} :
    (∀ entry ∈ optionalMember name found, holds entry) ↔ ∀ value ∈ found, holds (name, value) := by
  cases found <;> simp [optionalMember]

theorem mem_map_optionalMember {other} :
    other ∈ (optionalMember name found).map Prod.fst ↔ other = name ∧ found.isSome = true := by
  cases found <;> simp [optionalMember]

/-- What a claim set says. -/
structure Said where
  subject : String
  authority : String
  authoritySha256 : String
  assertionId : String
  issuedAt : Int
  expiresAt : Int
  method : String
  path : String
  body : Value
  model : Option Value
  decision : Option Value
  assurance : Option Value

/-- The closed claim set that says it, its members in the order they are admitted in. -/
def Said.claims (said : Said) (audience : String) : Value :=
  objectOf ([("v", int 1), ("aud", text audience), ("sub", text said.subject),
    ("authority", text said.authority), ("authority_sha256", text said.authoritySha256),
    ("jti", text said.assertionId), ("iat", int said.issuedAt), ("exp", int said.expiresAt),
    ("method", text said.method), ("path", text said.path), ("body", said.body)] ++
    optionalMember "model" said.model ++ optionalMember "decision" said.decision ++
    optionalMember "assurance" said.assurance)

/-- Every part is in the one form it is admitted in, and the assertion lives for at most 15 seconds. -/
structure Said.Closed (said : Said) : Prop where
  lifetime : 1 ≤ said.expiresAt - said.issuedAt ∧ said.expiresAt - said.issuedAt ≤ assertionMaxTtlSeconds
  body : BoundBody said.body
  model : ∀ model ∈ said.model, BoundPair "provider" "key_sha256" model
  decision : ∀ decision ∈ said.decision, BoundPair "provider" "key_sha256" decision
  assurance : ∀ assurance ∈ said.assurance, BoundPair "kind" "challenge_id" assurance

variable {members : List (String × Value)} {value claims : Value} {audience : String}

theorem binding_eq_ok {check} {admitted : Value → Prop} {entries} (hmembers : ∀ member ∈ members, Unique member.2)
    (hcheck : ∀ {value result}, Unique value → check value = .ok result →
      admitted result ∧ sorted result = sorted value) (h : binding members name check = .ok entries) :
    ∃ found, entries = optionalMember name found ∧ (∀ value ∈ found, admitted value) ∧
      (∀ value ∈ found, name ∈ members.map Prod.fst ∧ sorted value = sorted (field members name)) ∧
      (name ∈ members.map Prod.fst → found.isSome) := by
  unfold binding at h
  cases hfound : members.find? (fun member => member.1 == name) with
  | none =>
    rw [hfound] at h
    refine ⟨none, (Except.ok.inj h).symm, by simp, by simp, ?_⟩
    intro hname
    obtain ⟨member, hmember, rfl⟩ := mem_map.mp hname
    have hne := find?_eq_none.mp hfound member hmember
    simp at hne
  | some member =>
    rw [hfound] at h
    obtain ⟨result, hresult, rfl⟩ := map_eq_ok.mp h
    have hmember := mem_of_find?_eq_some hfound
    have hname : member.1 = name := by simpa using find?_some hfound
    obtain ⟨hadmitted, hsorted⟩ := hcheck (hmembers member hmember) hresult
    have hfield : field members name = member.2 := by rw [field, hfound]; rfl
    refine ⟨some result, rfl, ?_, ?_, fun _ => rfl⟩
    · intro found hmem
      cases hmem
      exact hadmitted
    · intro found hmem
      cases hmem
      exact ⟨hname ▸ mem_map_of_mem hmember, by rw [hfield, hsorted]⟩

theorem envelope_eq_ok (h : envelope value audience = .ok members) : value = .object members ∧
      (∀ name ∈ members.map Prod.fst, name ∈ required ++ optional) ∧ (∀ name ∈ required, name ∈ members.map Prod.fst) ∧
      field members "v" = int 1 ∧ field members "aud" = text audience := by
  obtain ⟨found, hfound, h⟩ := bind_eq_ok.mp h
  obtain ⟨hnames, h⟩ := guard_eq_ok.mp h
  obtain ⟨hsupported, h⟩ := guard_eq_ok.mp h
  cases h
  simp only [Bool.or_eq_true, Bool.not_eq_true', not_or, Bool.not_eq_false, all_eq_true,
    any_eq_true, bne_iff_ne, ne_eq, not_not] at hnames hsupported
  refine ⟨eq_object_of_object (orRefuse_eq_ok.mp hfound), ?_, ?_,
    eq_int_of_smallInt hsupported.1.2, eq_text_of_string hsupported.2⟩
  · intro name hname
    obtain ⟨member, hmember, rfl⟩ := mem_map.mp hname
    have hknown := hnames.1 member hmember
    simp only [contains_iff_mem] at hknown
    exact mem_append.mpr hknown
  · intro name hname
    obtain ⟨member, hmember, heq⟩ := hnames.2 name hname
    exact mem_map.mpr ⟨member, hmember, beq_iff_eq.mp heq⟩

theorem identity_eq_ok {pair} (h : identity members = .ok pair) : pair = (field members "sub", field members "jti") ∧
      (∃ subject, field members "sub" = text subject) ∧ ∃ nonce, field members "jti" = text nonce := by
  obtain ⟨hsubject, h⟩ := guard_eq_ok.mp h
  obtain ⟨hnonce, h⟩ := guard_eq_ok.mp h
  exact ⟨(Except.ok.inj h).symm, eq_text_of_isFullValue (by simpa using hsubject),
    eq_text_of_isFullValue (by simpa using hnonce)⟩

theorem target_eq_ok {pair} (h : target members = .ok pair) : pair = (field members "method", field members "path") ∧
      (∃ method, field members "method" = text method) ∧ ∃ path, field members "path" = text path := by
  obtain ⟨hmethod, h⟩ := guard_eq_ok.mp h
  obtain ⟨hpath, h⟩ := guard_eq_ok.mp h
  obtain ⟨method, hmethod, -⟩ := (Option.any_eq_true _ _).mp (by simpa using hmethod)
  obtain ⟨path, hpath, -⟩ := (Option.any_eq_true _ _).mp (by simpa using hpath)
  exact ⟨(Except.ok.inj h).symm, ⟨method, eq_text_of_string hmethod⟩, path, eq_text_of_string hpath⟩

theorem authority_eq_ok {routine result} (h : authority members routine = .ok result) :
    result = field members "authority" ∧ ∃ kind, field members "authority" = text kind := by
  obtain ⟨hkind, h⟩ := guard_eq_ok.mp h
  obtain ⟨-, h⟩ := guard_eq_ok.mp h
  obtain ⟨kind, hkind, -⟩ := (Option.any_eq_true _ _).mp (by simpa using hkind)
  exact ⟨(Except.ok.inj h).symm, kind, eq_text_of_string hkind⟩

/-- The members of a closed claim set name each field once. -/
theorem nodup_claims (audience) (said : Said) (fields) (h : said.claims audience = objectOf fields) :
    (fields.map Prod.fst).Nodup := by
  obtain rfl := Value.object.inj h
  cases said.model <;> cases said.decision <;> cases said.assurance <;>
    · simp only [optionalMember, Option.toList, map_append, map_cons, map_nil]
      decide

/-- An admitted claim set says what the closed set it is admitted as says, up to the order of members. -/
theorem canonicalClaims_eq_ok (hvalue : Unique value) (h : canonicalClaims value audience = .ok claims) :
    ∃ said : Said, claims = said.claims audience ∧ said.Closed ∧ sorted claims = sorted value := by
  obtain ⟨members, henvelope, h⟩ := bind_eq_ok.mp h
  obtain ⟨⟨sub, jti⟩, hidentity, h⟩ := bind_eq_ok.mp h
  obtain ⟨issuedAt, hissued, h⟩ := bind_eq_ok.mp h
  obtain ⟨expiresAt, hexpires, h⟩ := bind_eq_ok.mp h
  obtain ⟨hlifetime, h⟩ := guard_eq_ok.mp h
  obtain ⟨⟨methodValue, pathValue⟩, htarget, h⟩ := bind_eq_ok.mp h
  obtain ⟨sha256, hdigest, h⟩ := bind_eq_ok.mp h
  obtain ⟨bodyValue, hbody, h⟩ := bind_eq_ok.mp h
  obtain ⟨authorityValue, hauthority, h⟩ := bind_eq_ok.mp h
  obtain ⟨modelEntries, hmodel, h⟩ := bind_eq_ok.mp h
  obtain ⟨decisionEntries, hdecision, h⟩ := bind_eq_ok.mp h
  obtain ⟨assuranceEntries, hassurance, h⟩ := bind_eq_ok.mp h
  obtain ⟨rfl, hknown, hrequired, hversion, haudience⟩ := envelope_eq_ok henvelope
  obtain ⟨hpair, ⟨subject, hsubject⟩, nonce, hnonce⟩ := identity_eq_ok hidentity
  obtain ⟨rfl, rfl⟩ := Prod.mk.inj hpair
  obtain ⟨hissued, -⟩ := instant_eq_ok hissued
  obtain ⟨hexpires, -⟩ := instant_eq_ok hexpires
  obtain ⟨hpair, ⟨method, hmethod⟩, path, hpath⟩ := target_eq_ok htarget
  obtain ⟨rfl, rfl⟩ := Prod.mk.inj hpair
  obtain ⟨rfl, authoritySha256, hsha⟩ := digest_eq_ok hdigest
  obtain ⟨rfl, kind, hkind⟩ := authority_eq_ok hauthority
  cases hvalue with
  | object hnodup hmembers =>
    obtain ⟨hbound, hsortedBody⟩ := body_eq_ok (Unique.field hmembers "body") hbody
    obtain ⟨model, rfl, hmodelPair, hmodelField, hmodelSome⟩ := binding_eq_ok hmembers model_eq_ok hmodel
    obtain ⟨decision, rfl, hdecisionPair, hdecisionField, hdecisionSome⟩ :=
      binding_eq_ok hmembers decision_eq_ok hdecision
    obtain ⟨assurance, rfl, hassurancePair, hassuranceField, hassuranceSome⟩ :=
      binding_eq_ok hmembers assurance_eq_ok hassurance
    let said : Said := ⟨subject, kind, authoritySha256, nonce, issuedAt, expiresAt, method, path,
      bodyValue, model, decision, assurance⟩
    have hclaims : claims = said.claims audience := by
      rw [← Except.ok.inj h, hsubject, hkind, hsha, hnonce, hissued, hexpires, hmethod, hpath]
      rfl
    refine ⟨said, hclaims, ⟨not_not.mp hlifetime, hbound, hmodelPair, hdecisionPair, hassurancePair⟩, ?_⟩
    rw [hclaims]
    refine congrArg Value.object (sortedFields_of_entries (nodup_claims audience said _ rfl) hnodup ?_ ?_)
    · simp only [forall_mem_append, forall_mem_optionalMember]
      refine ⟨⟨⟨?_, hmodelField⟩, hdecisionField⟩, hassuranceField⟩
      simp only [forall_mem_cons]
      refine ⟨⟨hrequired "v" (by decide), by rw [hversion]⟩, ⟨hrequired "aud" (by decide), by rw [haudience]⟩,
        ⟨hrequired "sub" (by decide), by rw [hsubject]⟩,
        ⟨hrequired "authority" (by decide), by rw [hkind]⟩,
        ⟨hrequired "authority_sha256" (by decide), by rw [hsha]⟩,
        ⟨hrequired "jti" (by decide), by rw [hnonce]⟩, ⟨hrequired "iat" (by decide), by rw [hissued]⟩,
        ⟨hrequired "exp" (by decide), by rw [hexpires]⟩, ⟨hrequired "method" (by decide), by rw [hmethod]⟩,
        ⟨hrequired "path" (by decide), by rw [hpath]⟩, ⟨hrequired "body" (by decide), hsortedBody⟩, ?_⟩
      simp
    · intro name hname
      simp only [map_append, mem_append, mem_map_optionalMember]
      rcases mem_append.mp (hknown name hname) with hfixed | hoptional
      · exact .inl (.inl (.inl hfixed))
      · simp only [optional, mem_cons, not_mem_nil, or_false] at hoptional
        rcases hoptional with rfl | rfl | rfl
        · exact .inl (.inl (.inr ⟨rfl, hmodelSome hname⟩))
        · exact .inl (.inr ⟨rfl, hdecisionSome hname⟩)
        · exact .inr ⟨rfl, hassuranceSome hname⟩

end ShimpzTeams.Protocol.Supervisor
