import ShimpzTeams.Protocol.Supervisor

/-!
# What a Team's file store admits of an upload

A name, a media type and some bytes are checked before the store opens its database,
which then answers the id of a new file or of the identical one.
-/

namespace ShimpzTeams.Storage

open Protocol
open Protocol.Supervisor (mediaTypeRe maxFilenameBytes maxMediaTypeChars)

inductive StorageErrorKind where
  | notSafe
  | quota
  | notFound
  | input
  | notWeb
  deriving DecidableEq, Repr

/-- A storage refusal: its class and its fixed public message. -/
structure StorageError where
  kind : StorageErrorKind
  message : String
  deriving DecidableEq, Repr

def filename (value : String) : Except StorageError String :=
  if value.isEmpty || strip value != value then
    .error ⟨.input, "filename must be non-empty and trimmed"⟩
  else if maxFilenameBytes < (utf8 value).length then .error ⟨.input, "filename is too long"⟩
  else if value == "." || value == ".." || value.toList.any (fun character => character == '/' || character == '\\')
  then .error ⟨.input, "filename must not contain a path"⟩
  else if value.toList.any (fun character => character < ' ' || character.toNat == 0x7F) then
    .error ⟨.input, "filename contains control characters"⟩
  else .ok value

variable [Platform]

/-- `text.isprintable()`. -/
def isprintable (text : String) : Bool :=
  text.toList.all fun character =>
    character == ' ' || !(Platform.category character).toList.head?.any fun first => first == 'C' || first == 'Z'

/-- The canonical media type: lowercased; absent or empty is that of plain bytes. -/
def mediaType : Option String → Except StorageError String
  | none => .ok "application/octet-stream"
  | some text =>
    if text.isEmpty then .ok "application/octet-stream"
    else if text.toList.any (fun character => 0x7F < character.toNat) || maxMediaTypeChars < text.length
    then .error ⟨.input, "invalid media type"⟩
    else if mediaTypeRe (Platform.lower text) then .ok (Platform.lower text)
    else .error ⟨.input, "invalid media type"⟩

structure Metadata where
  id : String
  name : String
  mediaType : String
  size : Int

/-- Stores one file, or reuses the identical one: `stored` is what the database answers, the id of either. -/
def put (name : String) (content : List UInt8) (media : Option String) (limitBytes : Int)
    (stored : Except StorageError String) : Except StorageError Metadata := do
  let name ← filename name
  let mediaType ← mediaType media
  if content.isEmpty then .error ⟨.input, "file must contain bytes"⟩
  else if limitBytes < content.length then .error ⟨.quota, "Team storage quota exceeded"⟩
  else stored.map fun id => ⟨id, name, mediaType, content.length⟩

end ShimpzTeams.Storage
