import ShimpzTeams.Authority.Verifier

/-!
# The metadata of an upload

An upload is refused before its content is read unless it declares one length,
one canonical media type and one file name, percent-encoded. The name's bytes
are read back from the text and written again, so one text spells one name.
-/

namespace ShimpzTeams.Http

open StrictJson Protocol Authority
open Supervisor (mediaTypeRe maxFilenameBytes maxMediaTypeChars)

structure Problem where
  status : Nat
  message : String
  code : String

/-- The header fields of a request, their names in lower case. -/
abbrev HeaderMap := List (String × List UInt8)

def maxFileBytes : Nat := 25 * 1024 * 1024

def values (headers : HeaderMap) (name : String) : List (List UInt8) :=
  (headers.filter fun entry => entry.1 == name).map Prod.snd

/-- The one value of a header as a text of visible ASCII and tabs. -/
def oneText (headers : HeaderMap) (name : String) : Option String :=
  match values headers name with
  | [value] =>
    if value.all fun byte => (32 ≤ byte && byte < 127) || byte == 9 then fromUtf8 value else none
  | _ => none

/-- One declared length; one beyond 64 bits is the largest. -/
def declaredLength (value : List UInt8) : Except Problem Nat :=
  let trimmed := (fromUtf8 value).map fun text =>
    ((text.toList.dropWhile [' ', '\t'].contains).reverse.dropWhile [' ', '\t'].contains).reverse
  match trimmed.filter fun digits => !digits.isEmpty && digits.all Char.isDigit with
  | some digits => .ok (min (digitsValue digits).toNat (2 ^ 64 - 1))
  | none => .error ⟨400, "invalid Content-Length", "content-length"⟩

def contentLength (headers : HeaderMap) : Except Problem Nat :=
  if headers.any fun entry => entry.1 == "transfer-encoding" then
    .error ⟨400, "chunked requests are not accepted", "chunked-request"⟩
  else
    match values headers "content-length" with
    | [length] => declaredLength length
    | _ => .error ⟨411, "one Content-Length is required", "content-length"⟩

/-- A byte that `quote` leaves as it is: an ASCII letter or digit, or one of `_.-~`. -/
def isSafe (byte : UInt8) : Bool :=
  (48 ≤ byte && byte ≤ 57) || (65 ≤ byte && byte ≤ 90) || (97 ≤ byte && byte ≤ 122) || byte == 95 ||
    byte == 46 || byte == 45 || byte == 126

def upperHex (nibble : Nat) : Char := Char.ofNat (if nibble < 10 then 48 + nibble else 55 + nibble)

def quoted (byte : UInt8) : List Char :=
  if isSafe byte then [Char.ofNat byte.toNat]
  else ['%', upperHex (byte.toNat / 16), upperHex (byte.toNat % 16)]

/-- `quote(name, safe="")`. -/
def quote (name : String) : String := String.ofList ((utf8 name).flatMap quoted)

def hexValue (byte : UInt8) : Option Nat :=
  if 48 ≤ byte && byte ≤ 57 then some (byte.toNat - 48)
  else if 65 ≤ byte && byte ≤ 70 then some (byte.toNat - 55)
  else if 97 ≤ byte && byte ≤ 102 then some (byte.toNat - 87)
  else none

/-- `u8::from_str_radix` of two characters: a plus sign may stand before one digit. -/
def fromStrRadix (high low : UInt8) : Option UInt8 :=
  if high == 43 then (hexValue low).map UInt8.ofNat
  else do
    let high ← hexValue high
    let low ← hexValue low
    some (UInt8.ofNat (16 * high + low))

/-- `unquote_to_bytes`: each escape as its byte, everything else as it is. -/
def unquote : List UInt8 → List UInt8
  | byte :: high :: low :: rest =>
    match if byte == 37 then fromStrRadix high low else none with
    | some escaped => escaped :: unquote rest
    | none => byte :: unquote (high :: low :: rest)
  | short => short

def admissible (name : String) : Bool :=
  !name.isEmpty && (utf8 name).length ≤ maxFilenameBytes && name != "." && name != ".." &&
    !name.toList.any (fun character => character == '/' || character == '\\') && strip name == name &&
    !name.toList.any fun character => character < ' ' || character.toNat == 0x7F

/-- The file name a header text encodes exactly. -/
def fileName (encoded : String) : Option String :=
  (fromUtf8 (unquote (utf8 encoded))).filter fun name => quote name == encoded && admissible name

structure FileMetadata where
  length : Nat
  filename : String
  mediaType : String

/-- The binding the assertion of the upload must carry. -/
def FileMetadata.binding (metadata : FileMetadata) : Value :=
  objectOf [("kind", text "file"), ("length", int metadata.length), ("filename", text metadata.filename),
    ("media_type", text metadata.mediaType)]

def canonicalMediaType (mediaType : String) : Bool :=
  !mediaType.isEmpty && mediaType.toList.map Char.toLower == mediaType.toList &&
    (utf8 mediaType).length ≤ maxMediaTypeChars && mediaTypeRe mediaType

def fileMetadata (headers : HeaderMap) (maximum : Nat) : Except Problem FileMetadata := do
  let length ← contentLength headers
  if !(1 ≤ length && length ≤ maximum) then
    .error ⟨413, s!"file must contain 1 to {maximum} bytes", "file-too-large"⟩
  else
    match (oneText headers "content-type").filter canonicalMediaType with
    | none => .error ⟨415, "Content-Type must be a canonical media type", "content-type"⟩
    | some mediaType =>
      match (oneText headers "x-shimpz-filename").bind fileName with
      | none => .error ⟨422, "invalid file name", "invalid-file"⟩
      | some filename => .ok ⟨length, filename, mediaType⟩

/-- The bytes of one quoted byte, as `unquote` reads them: the byte, or its escape. -/
def readsBack (byte : UInt8) : Bool :=
  match (quoted byte).flatMap String.utf8EncodeChar with
  | [plain] => plain == byte && byte != 37
  | [percent, high, low] => percent == 37 && fromStrRadix high low == some byte
  | _ => false

theorem readsBack_byte (byte) : readsBack byte = true := by
  have hnibbles : ∀ high < 16, ∀ low < 16, readsBack (.ofNat (16 * high + low)) = true := by decide
  have hhigh : byte.toNat / 16 < 16 := Nat.div_lt_of_lt_mul byte.toNat_lt
  have hlow : byte.toNat % 16 < 16 := Nat.mod_lt _ (by decide)
  have h := hnibbles _ hhigh _ hlow
  rwa [Nat.div_add_mod, UInt8.ofNat_toNat] at h

/-- One quoted byte is read back, whatever follows it. -/
theorem unquote_quoted (byte rest) :
    unquote ((quoted byte).flatMap String.utf8EncodeChar ++ rest) = byte :: unquote rest := by
  have hreads := readsBack_byte byte
  rw [readsBack] at hreads
  split at hreads
  next plain hplain =>
    rw [Bool.and_eq_true, beq_iff_eq, bne_iff_ne] at hreads
    obtain ⟨rfl, hne⟩ := hreads
    rw [hplain]
    match rest with
    | [] | [_] => simp [unquote]
    | high :: low :: rest => simp [unquote, hne]
  next percent high low hescape =>
    rw [Bool.and_eq_true, beq_iff_eq, beq_iff_eq] at hreads
    obtain ⟨rfl, hbyte⟩ := hreads
    rw [hescape]
    simp [unquote, hbyte]
  next => cases hreads

theorem unquote_quote (name) : unquote (utf8 (quote name)) = utf8 name := by
  unfold quote
  rw [utf8_ofList, List.flatMap_assoc]
  generalize utf8 name = bytes
  induction bytes with
  | nil => rfl
  | cons byte rest ih => rw [List.flatMap_cons, unquote_quoted, ih]

theorem length_le_utf8 (text) : text.length ≤ (utf8 text).length := by
  rw [← @String.ofList_toList text, utf8_ofList, String.length_ofList]
  induction text.toList with
  | nil => rfl
  | cons first rest ih =>
    have hfirst := String.length_utf8EncodeChar first
    have hpos := first.utf8Size_pos
    rw [List.flatMap_cons, List.length_append, List.length_cons]
    omega

theorem fileName_eq_some {encoded name} :
    fileName encoded = some name ↔ admissible name = true ∧ encoded = quote name := by
  unfold fileName
  rw [Option.filter_eq_some_iff, Bool.and_eq_true, beq_iff_eq]
  constructor
  · rintro ⟨-, hquote, hadmissible⟩
    exact ⟨hadmissible, hquote.symm⟩
  · rintro ⟨hadmissible, rfl⟩
    rw [unquote_quote]
    exact ⟨fromUtf8_utf8 name, rfl, hadmissible⟩

/-- Whatever the reader admits is within the bounds of the assertion's file body. -/
theorem fileBody_binding {headers metadata} (h : fileMetadata headers maxFileBytes = .ok metadata) :
    Supervisor.fileBody metadata.binding = .ok metadata.binding := by
  obtain ⟨length, -, h⟩ := Library.bind_eq_ok.mp h
  split at h
  next => cases h
  next hlength =>
    split at h
    next => cases h
    next mediaType hmedia =>
      split at h
      next => cases h
      next filename hname =>
        cases h
        rw [Bool.not_eq_true', Bool.not_eq_false, Bool.and_eq_true, decide_eq_true_eq, decide_eq_true_eq] at hlength
        obtain ⟨-, hmedia⟩ := Option.filter_eq_some_iff.mp hmedia
        obtain ⟨encoded, -, hname⟩ := Option.bind_eq_some_iff.mp hname
        obtain ⟨hadmissible, -⟩ := fileName_eq_some.mp hname
        simp only [admissible, canonicalMediaType, Bool.and_eq_true, decide_eq_true_eq] at hadmissible hmedia
        obtain ⟨⟨⟨⟨⟨⟨hsome, hshort⟩, hdot⟩, hdots⟩, hslash⟩, hstrip⟩, -⟩ := hadmissible
        obtain ⟨⟨⟨htype, -⟩, hbound⟩, hform⟩ := hmedia
        have hfilename : Supervisor.filename filename = true := by
          simp only [Supervisor.filename, hsome, hstrip, hdot, hdots, hslash, hshort, decide_true, Bool.and_self]
        have hnonempty : 1 ≤ mediaType.length := by
          rw [Nat.one_le_iff_ne_zero, ne_eq, String.length_eq_zero_iff]
          rintro rfl
          cases htype
        have hchars := (length_le_utf8 mediaType).trans hbound
        have hinteger : 1 ≤ (length : Int) ∧ (length : Int) ≤ Supervisor.maxFileUploadBytes := by
          unfold maxFileBytes at hlength
          unfold Supervisor.maxFileUploadBytes
          omega
        have hexact : exactObject (FileMetadata.mk length filename mediaType).binding
            ["kind", "length", "filename", "media_type"] =
              some [("kind", text "file"), ("length", int length), ("filename", text filename),
                ("media_type", text mediaType)] := rfl
        rw [Supervisor.fileBody, hexact, Option.filter_some, if_pos]
        · rfl
        · simp [field, smallInt, int, text, string, hinteger, hfilename, hnonempty, hchars, hform]

/-- A name has one spelling: a header text is read as a name exactly when it is what `quote` writes for
that admissible name, from which the name is read back; and the binding of every admitted upload is
accepted unchanged by the assertion's rule for a file body. -/
theorem upload_names_spelled_once :
    (∀ encoded name, fileName encoded = some name ↔ admissible name = true ∧ encoded = quote name) ∧
      (∀ name, unquote (utf8 (quote name)) = utf8 name) ∧
      ∀ headers metadata, fileMetadata headers maxFileBytes = .ok metadata →
        Supervisor.fileBody metadata.binding = .ok metadata.binding :=
  ⟨fun _ _ => fileName_eq_some, unquote_quote, fun _ _ => fileBody_binding⟩

end ShimpzTeams.Http
