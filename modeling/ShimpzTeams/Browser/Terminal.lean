import ShimpzTeams.Browser.Fates
import ShimpzTeams.Storage.Uploads
import ShimpzTeams.Library.OrderedMap

/-!
# The ending of a Browser task on the wire, and its downloads

A finished task's reply carries the references of the files it kept, the named losses
and how many downloads were unnamed. The wire form admits a loss only by a bounded
printable name, and only so many unnamed downloads; the ingest admits any name and any
count. A listing is projected for the Brain under the bounds of the wire.
-/

namespace ShimpzTeams.Browser

open StrictJson Protocol Library List

section

open Protocol.Supervisor (mediaTypeRe isMediaPart maxFilenameBytes maxMediaTypeChars)
open Storage (isprintable)

variable {named : List (String × Nat)} {name : String}

def maxTerminalFiles : Nat := 8

def maxTerminalLosses : Nat := 128

def maxTerminalSkipped : Int := 1000

def maxNameBytes : Nat := 255

def maxFileUploadBytes : Int := 25 * 1024 * 1024

/-- Why a named download was not kept, sorted. -/
def terminalLosses : List String :=
  ["browser-lost", "empty", "incomplete", "name-refused", "over-limit", "quota-exceeded", "store-unavailable"]

def maxInt : Int := 2 ^ 63 - 1

/-- A count on the wire, at most the largest integer. -/
def count (value : Nat) : Value := int (min value maxInt)

def lossValue (loss : String × String) : Value := objectOf [("name", text loss.1), ("reason", text loss.2)]

/-- The terminal's `browser` field: the kept files' references, the losses, and how many were unnamed. -/
def terminal (ingested : Option Ingested) : Value :=
  let shown := ingested.getD {}
  objectOf [("files", .array shown.kept), ("lost", .array (shown.lost.map lossValue)), ("skipped", count shown.skipped)]

section

def canonicalFileId (value : Value) : Option String := (string value).filter (isHexText 32)

/-- A file name that is trimmed, of at most 255 UTF-8 bytes, without a path separator or ASCII control, and not
`.` or `..`. -/
def canonicalFilename (value : Value) : Option String :=
  (string value).filter fun name =>
    !name.isEmpty && strip name == name && (utf8 name).length ≤ maxFilenameBytes && name != "." && name != ".." &&
      !name.toList.any (fun character => character == '/') && !name.toList.any (fun character => character == '\\') &&
      !name.toList.any fun character => character < ' ' || character.toNat == 0x7F

variable [Platform]

/-- A media type, lowercased; absent or empty is that of plain bytes. -/
def canonicalMediaType (value : Value) : Option String :=
  if isNull value || string value == some "" then some "application/octet-stream"
  else do
    let mediaType ← (string value).filter fun mediaType => mediaType.length ≤ maxMediaTypeChars
    if mediaTypeRe (Platform.lower mediaType) then some (Platform.lower mediaType) else none

/-- One kept download as a reply shows it. -/
def canonicalFileReference (value : Value) : Option Value := do
  let members ← exactObject value ["id", "name", "media_type", "size"]
  let name ← string (field members "name")
  let mediaType ← string (field members "media_type")
  if (canonicalFileId (field members "id")).isSome && canonicalFilename (field members "name") == some name &&
      canonicalMediaType (field members "media_type") == some mediaType &&
      whole (field members "size") 1 maxFileUploadBytes
  then some (objectOf (["id", "name", "media_type", "size"].map fun key => (key, field members key)))
  else none

def showable (name : String) : Bool := !name.isEmpty && (utf8 name).length ≤ maxNameBytes && isprintable name

/-- One named download a reply says it did not keep, with its closed reason. -/
def canonicalLoss (value : Value) : Option Value := do
  let members ← exactObject value ["name", "reason"]
  let reason ← (string (field members "reason")).filter fun reason => terminalLosses.contains reason
  let name ← (string (field members "name")).filter showable
  some (objectOf [("name", text name), ("reason", text reason)])

def canonicalTerminal (value : Value) : Option Value := do
  let members ← exactObject value ["files", "lost", "skipped"]
  match field members "files", field members "lost" with
  | .array files, .array lost =>
    if maxTerminalFiles < files.length || maxTerminalLosses < lost.length ||
        !whole (field members "skipped") 0 maxTerminalSkipped then none
    else do
      let references ← files.mapM canonicalFileReference
      let losses ← lost.mapM canonicalLoss
      some (objectOf [("files", .array references), ("lost", .array losses), ("skipped", field members "skipped")])
  | _, _ => none

end

section

/-- A check of every element answers exactly when it answers for each. -/
theorem isSome_mapM {α β} {check : α → Option β} {items : List α} :
    (items.mapM check).isSome ↔ ∀ item ∈ items, (check item).isSome := by
  induction items with
  | nil => simp
  | cons item rest ih =>
    rw [mapM_cons, forall_mem_cons, ← ih]
    cases check item with
    | none => simp
    | some answer => cases rest.mapM check <;> simp

variable [Platform]

theorem isSome_canonicalLoss (loss) :
    (canonicalLoss (lossValue loss)).isSome ↔ terminalLosses.contains loss.2 = true ∧ showable loss.1 = true := by
  have hexact : exactObject (lossValue loss) ["name", "reason"] = some [("name", text loss.1), ("reason", text loss.2)] :=
    rfl
  have hreason : string (field [("name", text loss.1), ("reason", text loss.2)] "reason") = some loss.2 := rfl
  have hname : string (field [("name", text loss.1), ("reason", text loss.2)] "name") = some loss.1 := rfl
  unfold canonicalLoss
  rw [hexact, Option.bind_eq_bind, Option.bind_some, hreason, hname]
  rw [Option.bind_eq_bind, Option.filter_some, Option.filter_some]
  cases terminalLosses.contains loss.2 <;> cases showable loss.1 <;> simp

/-- What the wire form asks of a task's ending. -/
theorem isSome_canonicalTerminal (ingested) : (canonicalTerminal (terminal (some ingested))).isSome ↔
      ingested.kept.length ≤ maxTerminalFiles ∧ ingested.lost.length ≤ maxTerminalLosses ∧
      (ingested.skipped : Int) ≤ maxTerminalSkipped ∧ (∀ kept ∈ ingested.kept, (canonicalFileReference kept).isSome) ∧
      ∀ loss ∈ ingested.lost, terminalLosses.contains loss.2 = true ∧ showable loss.1 = true := by
  have hskipped : whole (count ingested.skipped) 0 maxTerminalSkipped = true ↔
      (ingested.skipped : Int) ≤ maxTerminalSkipped := by
    simp only [whole, count, int, smallInt, Option.any_some, Bool.and_eq_true, decide_eq_true_eq]
    unfold maxTerminalSkipped maxInt
    omega
  have hlost : (∀ loss ∈ ingested.lost.map lossValue, (canonicalLoss loss).isSome) ↔
      ∀ loss ∈ ingested.lost, terminalLosses.contains loss.2 = true ∧ showable loss.1 = true := by
    simp only [forall_mem_map, isSome_canonicalLoss]
  rw [← hskipped, ← hlost, ← isSome_mapM, ← isSome_mapM]
  change (if maxTerminalFiles < ingested.kept.length || maxTerminalLosses < (ingested.lost.map lossValue).length ||
      !whole (count ingested.skipped) 0 maxTerminalSkipped then none
    else (ingested.kept.mapM canonicalFileReference).bind fun references =>
      ((ingested.lost.map lossValue).mapM canonicalLoss).bind fun losses =>
        some (objectOf [("files", .array references), ("lost", .array losses), ("skipped", count ingested.skipped)])).isSome
      = true ↔ _
  rw [length_map]
  split
  · next hrefused =>
    simp only [Bool.or_eq_true, decide_eq_true_eq, Bool.not_eq_true'] at hrefused
    simp only [Option.isSome_none, Bool.false_eq_true, false_iff]
    rintro ⟨hfiles, hlosses, hcount, -⟩
    rcases hrefused with (hmany | hmany) | hmany
    · omega
    · omega
    · rw [hcount] at hmany
      cases hmany
  · next hadmitted =>
    simp only [Bool.or_eq_true, decide_eq_true_eq, not_or, Bool.not_eq_true', Bool.not_eq_false, Nat.not_lt] at hadmitted
    obtain ⟨⟨hfiles, hlosses⟩, hcount⟩ := hadmitted
    cases ingested.kept.mapM canonicalFileReference <;>
      cases (ingested.lost.map lossValue).mapM canonicalLoss <;> simp [hfiles, hlosses, hcount]

end

/-- A sink that keeps its contract: it reads exactly the listed bytes, and answers a stored file by its reference. -/
structure Sink [Platform] extends Answers where
  exact : ∀ index name size data, read index name size = some data → data.length = size
  references : ∀ index name data stored, put index name data = .ok stored → 1 ≤ data.length →
    data.length ≤ maxFileBytes → (canonicalFileReference (reference stored)).isSome = true

section

variable [Platform]

structure Adds (index : Nat) (named : List (String × Nat)) (before after : Ingested) (kept : List Value)
    (lost : List (String × String)) : Prop where
  after_eq : after = ⟨before.kept ++ kept, before.lost ++ lost, before.skipped⟩
  few : kept.length ≤ maxFiles - index
  losses : lost.length ≤ named.length
  references : ∀ file ∈ kept, (canonicalFileReference file).isSome = true
  reasons : ∀ loss ∈ lost, terminalLosses.contains loss.2 = true
  names : ∀ loss ∈ lost, loss.1 ∈ named.map Prod.fst

/-- A fate whose trace the wire admits. -/
def Fate.Showable : Fate → Prop
  | .kept stored => (canonicalFileReference (Browser.reference stored)).isSome = true
  | .lost reason => terminalLosses.contains reason = true

theorem Fated.showable (sink : Sink) {index size fate}
    (h : Fated sink.toAnswers index name size fate) : fate.Showable := by
  cases h with
  | lost hreason =>
    have hclosed : ∀ reason ∈ lossReasons, terminalLosses.contains reason = true := by decide
    exact hclosed _ hreason
  | kept _ hfilled hwithin hread hput =>
    have hlength := sink.exact _ _ _ _ hread
    exact sink.references _ _ _ _ hput (by omega) (by omega)

/-- What the loop over the named files adds, whatever the sink answers and whenever the turn stops. -/
theorem ingestFrom_adds (sink : Sink) (stop index) (before : Ingested) (named) :
    ∃ kept lost, Adds index named before (ingestFrom sink.toAnswers stop index before named) kept lost := by
  have hshowable := forall_handled Fate.Showable (by decide : terminalLosses.contains "browser-lost" = true)
    (fun _ _ _ _ hfate => hfate.showable sink) stop index named
  refine ⟨_, _, ingestFrom_eq_account sink.toAnswers stop index before named,
    (handled_accounts sink.toAnswers stop index named).few, ?_, ?_, ?_, ?_⟩
  · refine (length_filterMap_le _ _).trans ?_
    rw [length_zip]
    exact Nat.min_le_left _ _
  · intro file hfile
    obtain ⟨fate, hfate, hkept⟩ := mem_filterMap.mp hfile
    cases fate with
    | kept stored => exact Option.some.inj hkept ▸ hshowable _ hfate
    | lost reason => cases hkept
  · exact fun loss hloss => hshowable _ (mem_losses hloss).2
  · exact fun loss hloss => (mem_losses hloss).1

def unreadable : Sink where
  read := fun _ _ _ => none
  put := fun _ _ _ => .error .unavailable
  exact := nofun
  references := nofun

def Stop.never : Stop := ⟨fun _ => false, fun _ => false⟩

/-- When nothing can be read, every named file is lost. -/
theorem names_ingestFrom_unreadable (index before named) :
    (ingestFrom unreadable.toAnswers .never index before named).lost.map Prod.fst =
      before.lost.map Prod.fst ++ named.map Prod.fst := by
  have hlost := forall_handled (fun fate => fate.reference = none) rfl
    (fun index name size fate (hfate : Fated unreadable.toAnswers index name size fate) => ?_) .never index named
  · have hlength := (handled_accounts unreadable.toAnswers .never index named).full
      ⟨fun _ => rfl, fun _ => rfl, nofun⟩
    rw [ingestFrom_eq_account, Ingested.account, map_append, names_losses hlength hlost]
  · cases hfate with
    | lost => rfl
    | kept _ _ _ hread => cases hread

end

variable {admitted : String}

section

open Storage (StorageError filename mediaType)

variable [Platform]

def LowersAscii : Prop :=
  ∀ text : String, (∀ character ∈ text.toList, character.toNat ≤ 0x7F) →
    Platform.lower text = String.ofList (text.toList.map Char.toLower)

/-- One put to the Team's files, seen by the task: whether the turn was stopped, whether the task still holds the
Browser, whether its deadline passed, whether the store's thread failed, the Team's quota, and what its database
answers. Every id of the database is drawn. -/
structure Moment where
  stopped : Bool
  held : Bool
  late : Bool
  failed : Bool
  limitBytes : Int
  stored : Except StorageError String
  hexId : ∀ id, stored = .ok id → isHexText 32 id = true

def putRefused (refusal : StorageError) : PutRefused :=
  match refusal.kind with
  | .quota => .quotaExceeded
  | .input => .nameRefused
  | _ => .unavailable

def storedValue (file : Storage.Metadata) : Value :=
  objectOf [("id", text file.id), ("name", text file.name), ("media_type", text file.mediaType), ("size", int file.size)]

def webPut (detect : String → List UInt8 → String) (moment : Moment) (name : String) (data : List UInt8) :
    Except PutRefused Value :=
  if moment.failed then .error .unavailable
  else match Storage.put name data (some (detect name data)) moment.limitBytes moment.stored with
    | .error refusal => .error (putRefused refusal)
    | .ok file => .ok (storedValue file)

/-- Stores a download of a task that was not stopped, still holds its Browser, and is in time. -/
def taskPut (detect : String → List UInt8 → String) (moment : Moment) (name : String) (data : List UInt8) :
    Except PutRefused Value :=
  if moment.stopped || !moment.held then .error .stopped
  else if moment.late then .error .readLost
  else webPut detect moment name data

/-- The bytes easi.run answered for a download, when they came in time and are exactly as many as it listed. -/
def taskRead (late : Bool) (body : Option (List UInt8)) (size : Nat) : Option (List UInt8) :=
  if late then none else body.filter fun data => data.length == size

omit [Platform] in
theorem canonicalFilename_of_filename (h : filename name = .ok admitted) :
    canonicalFilename (text admitted) = some admitted := by
  unfold filename at h
  obtain ⟨htrimmed, h⟩ := guard_eq_ok.mp h
  obtain ⟨hlength, h⟩ := guard_eq_ok.mp h
  obtain ⟨hpath, h⟩ := guard_eq_ok.mp h
  obtain ⟨hcontrol, h⟩ := guard_eq_ok.mp h
  cases h
  simp_all [canonicalFilename, text, string]

omit [Platform] in
theorem toLower_ascii {character : Char} (h : character.toNat ≤ 0x7F) :
    character.toLower.toNat ≤ 0x7F ∧ character.toLower.toLower = character.toLower := by
  have hall : ∀ code : Fin 128, (Char.ofNat code).toLower.toNat ≤ 0x7F ∧
      (Char.ofNat code).toLower.toLower = (Char.ofNat code).toLower := by decide
  have hcode := hall ⟨character.toNat, by omega⟩
  rwa [Char.ofNat_toNat] at hcode

/-- A media type the store admits is the wire's own form of it. -/
theorem canonicalMediaType_of_mediaType (hlower : LowersAscii) {given}
    (h : mediaType (some given) = .ok admitted) : canonicalMediaType (text admitted) = some admitted := by
  -- Both ends of the store's function give a media type of lowercase ASCII text.
  suffices hcanonical : mediaTypeRe admitted = true ∧ admitted.length ≤ maxMediaTypeChars ∧
      Platform.lower admitted = admitted by
    obtain ⟨hmedia, hlength, hfixed⟩ := hcanonical
    have hfilled : admitted ≠ "" := by
      rintro rfl
      revert hmedia
      decide
    unfold canonicalMediaType
    rw [if_neg (by simp [isNull, string, text, hfilled])]
    simp [string, text, Option.filter_some, hlength, hfixed, hmedia]
  unfold mediaType at h
  dsimp only at h
  by_cases hempty : given.isEmpty = true
  · rw [if_pos hempty] at h
    cases h
    refine ⟨by decide, by decide, ?_⟩
    rw [hlower "application/octet-stream" (by simp)]
    decide
  · rw [if_neg hempty] at h
    obtain ⟨hbounds, h⟩ := guard_eq_ok.mp h
    split at h
    · next hmedia =>
      cases h
      simp only [Bool.or_eq_true, any_eq_true, decide_eq_true_eq, not_or, not_exists, not_and, Nat.not_lt] at hbounds
      obtain ⟨hascii, hlength⟩ := hbounds
      have hlowered := hlower given hascii
      refine ⟨hmedia, ?_, ?_⟩
      · rw [hlowered, String.length_ofList, length_map, String.length_toList]
        exact hlength
      · rw [hlowered, hlower _ ?_]
        · rw [String.toList_ofList, map_map]
          refine congrArg String.ofList (map_congr_left fun character hcharacter => ?_)
          exact (toLower_ascii (hascii character hcharacter)).2
        · intro character hcharacter
          rw [String.toList_ofList] at hcharacter
          obtain ⟨origin, horigin, rfl⟩ := mem_map.mp hcharacter
          exact (toLower_ascii (hascii origin horigin)).1
    · cases h

/-- What the Team's files answer for a stored download is a reference on the wire. -/
theorem webPut_reference (hlower : LowersAscii) {detect moment data stored}
    (h : webPut detect moment name data = .ok stored) (hfilled : 1 ≤ data.length)
    (hwithin : data.length ≤ maxFileBytes) : (canonicalFileReference (reference stored)).isSome = true := by
  unfold webPut at h
  obtain ⟨-, h⟩ := guard_eq_ok.mp h
  split at h
  · cases h
  next file hput =>
  cases h
  obtain ⟨admitted, hname, hput⟩ := bind_eq_ok.mp hput
  obtain ⟨type, hmedia, hput⟩ := bind_eq_ok.mp hput
  obtain ⟨-, hput⟩ := guard_eq_ok.mp hput
  obtain ⟨-, hput⟩ := guard_eq_ok.mp hput
  obtain ⟨id, hstored, rfl⟩ := map_eq_ok.mp hput
  have hbounds : whole (int data.length) 1 maxFileUploadBytes = true := by
    simp only [whole, int, smallInt, Option.any_some, Bool.and_eq_true, decide_eq_true_eq]
    unfold maxFileBytes at hwithin
    unfold maxFileUploadBytes
    omega
  change (if (canonicalFileId (text id)).isSome && canonicalFilename (text admitted) == some admitted &&
      canonicalMediaType (text type) == some type && whole (int data.length) 1 maxFileUploadBytes
    then some _ else none).isSome = true
  rw [canonicalFilename_of_filename hname, canonicalMediaType_of_mediaType hlower hmedia, hbounds]
  simp [canonicalFileId, text, string, Option.filter_some, moment.hexId id hstored]

/-- The downloads of a running task: read from its Browser and stored among the Team's files. -/
def taskDownloads (hlower : LowersAscii) (detect : String → List UInt8 → String) (late : Nat → Bool)
    (body : Nat → Option (List UInt8)) (moments : Nat → Moment) : Sink where
  read := fun index _ size => taskRead (late index) (body index) size
  put := fun index name data => taskPut detect (moments index) name data
  exact := by
    intro index _ size data h
    unfold taskRead at h
    obtain ⟨-, h⟩ := Option.ite_none_left_eq_some.mp h
    exact beq_iff_eq.mp (Option.filter_eq_some_iff.mp h).2
  references := by
    intro index name data stored h hfilled hwithin
    unfold taskPut at h
    obtain ⟨-, h⟩ := guard_eq_ok.mp h
    obtain ⟨-, h⟩ := guard_eq_ok.mp h
    exact webPut_reference hlower h hfilled hwithin

end

theorem sortDownloads_eq (entries skipped downloads) :
    sortDownloads entries skipped downloads = (entries ++ (downloads.filterMap listed).map listingEntry,
        skipped + downloads.countP fun download => (listed download).isNone) := by
  induction downloads generalizing entries skipped with
  | nil => simp [sortDownloads]
  | cons download rest ih =>
    unfold sortDownloads
    cases hlisted : listed download with
    | none =>
      simp only [ih, filterMap_cons, countP_cons, hlisted, Option.isNone_none, if_true]
      refine Prod.ext rfl ?_
      omega
    | some file => simp [ih, hlisted]

def downloads (answer : Value) : List Value := elements (fieldOf answer "downloads")

def unnamed (answer : Value) : Nat := (downloads answer).countP fun download => (listed download).isNone

theorem namedEntry_listingEntry (file) : namedEntry (listingEntry file) =
      if file.1.isEmpty then none else if 0 ≤ file.2 then some (file.1, file.2.toNat) else none := by
  change ((nameOf (some (text file.1))).bind fun name => (sizeOf (some (int file.2))).bind fun size => some (name, size)) = _
  simp only [nameOf, sizeOf, text, int]
  split
  · rfl
  split <;> rfl

theorem mapM_namedEntry {files : List (String × Int)} (h : (files.map listingEntry).mapM namedEntry = some named) :
    named.map Prod.fst = files.map Prod.fst ∧ ∀ file ∈ named, file.1.isEmpty = false := by
  induction files generalizing named with
  | nil =>
    cases h
    exact ⟨rfl, by simp⟩
  | cons file rest ih =>
    rw [map_cons, mapM_cons, namedEntry_listingEntry] at h
    obtain ⟨first, hfirst, h⟩ := Option.bind_eq_some_iff.mp h
    obtain ⟨others, hothers, h⟩ := Option.bind_eq_some_iff.mp h
    cases h
    obtain ⟨hname, hfirst⟩ := Option.ite_none_left_eq_some.mp hfirst
    obtain ⟨-, hfirst⟩ := Option.ite_none_right_eq_some.mp hfirst
    cases hfirst
    obtain ⟨hnames, hfilled⟩ := ih hothers
    refine ⟨by rw [map_cons, map_cons, hnames], ?_⟩
    exact forall_mem_cons.mpr ⟨Bool.eq_false_iff.mpr hname, hfilled⟩

theorem entries_objectOf (files) (skipped : Nat) :
    entries (objectOf [("files", .array files), ("refused", .array []), ("skipped", int skipped)]) =
      if maxListed < files.length then none else (files.mapM namedEntry).map fun named => ⟨named, [], skipped⟩ := by
  have hsize : sizeOf (some (int skipped)) = some skipped := by simp [sizeOf, int]
  change ((sizeOf (some (int skipped))).bind fun skipped =>
    if maxListed < files.length || maxListed < ([] : List Value).length then none
    else (files.mapM namedEntry).bind fun named =>
      (([] : List Value).mapM refusedEntry).bind fun reasons => some (⟨named, reasons, skipped⟩ : Entries)) = _
  simp [hsize, Option.map_eq_bind]

structure Reads (answer : Value) (found : Entries) : Prop where
  names : found.named.map Prod.fst = ((downloads answer).filterMap listed).map Prod.fst
  filled : ∀ file ∈ found.named, file.1.isEmpty = false
  few : found.named.length ≤ maxListed
  refused : found.refused = []
  skipped : found.skipped = unnamed answer

theorem reads_of_files {stopped answer listing found}
    (hfiles : files stopped answer = some listing) (hentries : entries listing = some found) : Reads answer found := by
  unfold files at hfiles
  obtain ⟨-, hfiles⟩ := Option.ite_none_left_eq_some.mp hfiles
  split at hfiles
  · next found' hdownloads =>
    have hlist : downloads answer = found' := by
      unfold downloads fieldOf
      rw [hdownloads]
      rfl
    rw [sortDownloads_eq] at hfiles
    cases hfiles
    rw [Int.zero_add, entries_objectOf, nil_append] at hentries
    obtain ⟨hfew, hentries⟩ := Option.ite_none_left_eq_some.mp hentries
    obtain ⟨named, hnamed, rfl⟩ := Option.map_eq_some_iff.mp hentries
    obtain ⟨hnames, hfilled⟩ := mapM_namedEntry hnamed
    refine ⟨by rw [hnames, hlist], hfilled, ?_, rfl, ?_⟩
    · have hlength := congrArg List.length hnames
      rw [length_map, length_map] at hlength
      rw [length_map] at hfew
      change named.length ≤ maxListed
      omega
    · rw [unnamed, hlist]
  · cases hfiles

section

variable [Platform]

/-- A finished task's ending is accepted for every sink and every Stop exactly when every download the answer names
has a printable name of at most 255 bytes, and at most a thousand have none. -/
theorem browser_ending_accepted_iff {stopped : Bool} {answer listing : Value} {found : Entries}
    (hfiles : files stopped answer = some listing) (hentries : entries listing = some found) :
    (∀ (sink : Sink) (stop : Stop) (ingested : Ingested), ingest listing sink.toAnswers stop = some ingested →
        (canonicalTerminal (terminal (some ingested))).isSome = true) ↔
      (∀ download ∈ downloads answer, ∀ name size, listed download = some (name, size) →
        (utf8 name).length ≤ maxNameBytes ∧ isprintable name = true) ∧
      unnamed answer ≤ maxTerminalSkipped := by
  have hreads := reads_of_files hfiles hentries
  have hingest (sink : Sink) (stop : Stop) : ingest listing sink.toAnswers stop =
      some (ingestFrom sink.toAnswers stop 0 ⟨[], [], unnamed answer⟩ found.named) := by
    unfold ingest
    rw [hentries, ← hreads.skipped, ← hreads.refused]
    rfl
  constructor
  · intro haccepted
    have hall := (isSome_canonicalTerminal _).mp (haccepted unreadable .never _ (hingest unreadable .never))
    obtain ⟨kept, lost, hadds⟩ := ingestFrom_adds unreadable .never 0 ⟨[], [], unnamed answer⟩ found.named
    obtain ⟨-, -, hskipped, -, hshown⟩ := hall
    refine ⟨?_, ?_⟩
    · intro download hdownload name size hlisted
      have hname : name ∈ found.named.map Prod.fst := by
        rw [hreads.names]
        exact mem_map_of_mem (mem_filterMap.mpr ⟨download, hdownload, hlisted⟩)
      have hlost : name ∈ (ingestFrom unreadable.toAnswers .never 0 ⟨[], [], unnamed answer⟩ found.named).lost.map
          Prod.fst := by
        rw [names_ingestFrom_unreadable]
        exact mem_append_right _ hname
      obtain ⟨loss, hloss, rfl⟩ := mem_map.mp hlost
      have hshow := (hshown loss hloss).2
      simp only [showable, Bool.and_eq_true, decide_eq_true_eq] at hshow
      exact ⟨hshow.1.2, hshow.2⟩
    · rwa [hadds.after_eq] at hskipped
  · rintro ⟨hnames, hskipped⟩ sink stop ingested h
    obtain ⟨kept, lost, hadds⟩ := ingestFrom_adds sink stop 0 ⟨[], [], unnamed answer⟩ found.named
    rw [hingest, hadds.after_eq] at h
    cases h
    refine (isSome_canonicalTerminal _).mpr ⟨hadds.few, ?_, hskipped, hadds.references, ?_⟩
    · exact hadds.losses.trans (hreads.few.trans (by decide))
    · intro loss hloss
      refine ⟨hadds.reasons loss hloss, ?_⟩
      have hname := hadds.names loss hloss
      obtain ⟨file, hfile, hfilled⟩ := mem_map.mp hname
      rw [hreads.names] at hname
      obtain ⟨⟨name, size⟩, hlisted, rfl⟩ := mem_map.mp hname
      obtain ⟨download, hdownload, hlisted⟩ := mem_filterMap.mp hlisted
      obtain ⟨hlength, hprintable⟩ := hnames download hdownload _ _ hlisted
      have hnonempty := hreads.filled file hfile
      rw [hfilled] at hnonempty
      simp [showable, hnonempty, hlength, hprintable]

end

attribute [local instance] Routines.utcPlatform

def answerOf (name : String) (size : Int) : Value :=
  objectOf [("downloads", .array [objectOf [("name", text name), ("size", int size)]])]

def listingOf (name : String) (size : Int) : Value :=
  objectOf [("files", .array [listingEntry (name, size)]), ("refused", .array []), ("skipped", int 0)]

theorem files_answerOf (name size) : files false (answerOf name size) = some (listingOf name size) :=
  rfl

theorem entries_listingOf (hname : name.isEmpty = false) (size : Nat) :
    entries (listingOf name size) = some ⟨[(name, size)], [], 0⟩ := by
  have hread := entries_objectOf [listingEntry (name, size)] 0
  have hfew : ¬maxListed < [listingEntry (name, (size : Int))].length := by
    rw [length_singleton]
    decide
  rw [if_neg hfew, mapM_cons, namedEntry_listingEntry, if_neg (by simp [hname])] at hread
  exact hread

theorem ingest_listingOf_empty (hname : name.isEmpty = false) :
    ingest (listingOf name 0) unreadable.toAnswers .never = some ⟨[], [(name, "empty")], 0⟩ := by
  unfold ingest
  rw [show (0 : Int) = ((0 : Nat) : Int) from rfl, entries_listingOf hname]
  rfl

def longName : String := String.ofList (List.replicate 256 'a')

/-- A download of no bytes is lost under its own name, and the ending of its task is refused when the name is too
long for the wire. -/
theorem browser_ending_refused_for_long_name :
    files false (answerOf longName 0) = some (listingOf longName 0) ∧
      ingest (listingOf longName 0) unreadable.toAnswers .never = some ⟨[], [(longName, "empty")], 0⟩ ∧
      (canonicalTerminal (terminal (some ⟨[], [(longName, "empty")], 0⟩))).isSome = false := by
  refine ⟨files_answerOf longName 0, ingest_listingOf_empty (by decide +kernel), ?_⟩
  rw [Bool.eq_false_iff]
  intro haccepted
  obtain ⟨-, -, -, -, hlost⟩ := (isSome_canonicalTerminal _).mp haccepted
  have hshow := (hlost _ mem_cons_self).2
  revert hshow
  decide +kernel

/-- A report of three bytes ends well whatever becomes of it. -/
theorem browser_ending_accepted_of_report :
    files false (answerOf "report.pdf" 3) = some (listingOf "report.pdf" 3) ∧
      ∀ (sink : Sink) (stop : Stop) (ingested : Ingested),
        ingest (listingOf "report.pdf" 3) sink.toAnswers stop = some ingested →
        (canonicalTerminal (terminal (some ingested))).isSome = true := by
  refine ⟨files_answerOf "report.pdf" 3, ?_⟩
  refine (browser_ending_accepted_iff (files_answerOf "report.pdf" 3) (entries_listingOf (by decide) 3)).mpr ⟨?_, ?_⟩
  · intro download hdownload name size hlisted
    obtain rfl : download = _ := mem_singleton.mp hdownload
    cases hlisted
    decide
  · decide

end

open Storage (isprintable)

variable [Platform]

def maxDownloadNames : Nat := 20

def maxPendingDownloads : Int := 1000

/-- `plain` of one line: non-blank text within so many characters, every one printable. -/
def plain (value : Value) (limit : Nat) : Option String :=
  (string value).filter fun text => !(strip text).isEmpty && text.length ≤ limit && isprintable text

def downloadName (value : Value) : Option String :=
  (plain value maxNameBytes).filter fun name => (utf8 name).length ≤ maxNameBytes

/-- The completed files present, sorted and distinct, how many still download, and whether names were left out. -/
def canonicalDownloads (value : Value) : Option Value := do
  let members ← exactObject value ["files", "pending", "truncated"]
  match field members "files" with
  | .array files =>
    let names := files.filterMap downloadName
    if files.length ≤ maxDownloadNames && names.length == files.length && decide (names.IsChain (· < ·)) &&
        whole (field members "pending") 0 maxPendingDownloads && isBool (field members "truncated")
    then some (objectOf [("files", .array files), ("pending", field members "pending"),
      ("truncated", field members "truncated")])
    else none
  | _ => none

def projection (names : List String) (pending : Int) (truncated : Bool) : Value :=
  objectOf [("files", .array (names.map text)), ("pending", int pending), ("truncated", .bool truncated)]

/-- The names of the completed files, those over the limit too. -/
def presentNames (found : Entries) : List String :=
  OrderedMap.setOf id (found.named.map Prod.fst ++
    (found.refused.filter fun entry => entry.2 == "over-limit").map Prod.fst)

def admittedNames (found : Entries) : List String :=
  (presentNames found).filter fun name => (canonicalDownloads (projection [name] 0 false)).isSome

/-- The completed files present, and how many still download. -/
def presented (found : Entries) : Value :=
  let admitted := admittedNames found
  let truncated := 0 < found.skipped || admitted.length < (presentNames found).length ||
    maxDownloadNames < admitted.length
  let pending := found.refused.countP fun entry => entry.2 == "incomplete"
  projection (admitted.take maxDownloadNames) (min (min pending maxInt) maxPendingDownloads) truncated

/-- What a step may know of the task's downloads so far; none when the listing broke its shape. -/
def present (listing : Value) : Option Value := (entries listing).map presented

theorem downloadName_eq {name found} (h : downloadName (text name) = some found) : found = name := by
  obtain ⟨h, -⟩ := Option.filter_eq_some_iff.mp h
  obtain ⟨h, -⟩ := Option.filter_eq_some_iff.mp h
  exact (Option.some.inj h).symm

theorem filterMap_downloadName (names : List String) :
    (names.map text).filterMap downloadName = names.filter fun name => (downloadName (text name)).isSome := by
  induction names with
  | nil => rfl
  | cons name rest ih =>
    rw [List.map_cons, List.filterMap_cons, ih, List.filter_cons]
    cases hname : downloadName (text name) with
    | none => rfl
    | some found =>
      rw [downloadName_eq hname]
      rfl

/-- What the wire form asks of a projection. -/
theorem isSome_canonicalDownloads (names : List String) (pending truncated) :
    (canonicalDownloads (projection names pending truncated)).isSome = true ↔
      names.length ≤ maxDownloadNames ∧ (∀ name ∈ names, (downloadName (text name)).isSome = true) ∧
      names.IsChain (· < ·) ∧ 0 ≤ pending ∧ pending ≤ maxPendingDownloads := by
  have hpending : whole (int pending) 0 maxPendingDownloads = true ↔
      0 ≤ pending ∧ pending ≤ maxPendingDownloads := by
    simp only [whole, int, smallInt, Option.any_some, Bool.and_eq_true, decide_eq_true_eq]
  change (if (names.map text).length ≤ maxDownloadNames &&
      ((names.map text).filterMap downloadName).length == (names.map text).length &&
      decide (((names.map text).filterMap downloadName).IsChain (· < ·)) &&
      whole (int pending) 0 maxPendingDownloads && true then some _ else none).isSome = true ↔ _
  rw [filterMap_downloadName, List.length_map, Option.isSome_ite]
  simp only [Bool.and_eq_true, Bool.and_true, decide_eq_true_eq, beq_iff_eq, List.length_filter_eq_length_iff, hpending,
    and_assoc]
  refine and_congr_right fun _ => and_congr_right fun hall => ?_
  rw [List.filter_eq_self.mpr hall]

theorem downloadName_admitted {found name} (h : name ∈ admittedNames found) :
    (downloadName (text name)).isSome = true := by
  have hone := (isSome_canonicalDownloads _ _ _).mp (List.mem_filter.mp h).2
  exact hone.2.1 name (List.mem_singleton_self _)

/-- The projection is of the wire's form. -/
theorem canonicalDownloads_presented (found) : (canonicalDownloads (presented found)).isSome = true := by
  refine (isSome_canonicalDownloads _ _ _).mpr ⟨List.length_take_le _ _, ?_, ?_, ?_⟩
  · intro name hname
    exact downloadName_admitted (List.mem_of_mem_take hname)
  · have hsorted : (presentNames found).Pairwise (· < ·) := OrderedMap.pairwise_setOf _
    exact ((hsorted.filter _).sublist (List.take_sublist _ _)).isChain
  · unfold maxInt maxPendingDownloads
    omega

/-- Names are left out exactly when not all of the present ones are admitted and shown. -/
theorem left_out_iff (found) :
    ((admittedNames found).length < (presentNames found).length ∨ maxDownloadNames < (admittedNames found).length) ↔
      ∃ name ∈ presentNames found, name ∉ (admittedNames found).take maxDownloadNames := by
  have hless : (admittedNames found).length ≤ (presentNames found).length := List.length_filter_le _ _
  constructor
  · intro hshort
    by_contra hall
    push Not at hall
    have hnodup : (presentNames found).Nodup := OrderedMap.nodup_setOf _
    have hfew := (List.subperm_of_subset hnodup hall).length_le
    rw [List.length_take] at hfew
    omega
  · rintro ⟨name, hname, hmissing⟩
    by_contra hfull
    push Not at hfull
    have hwhole : admittedNames found = presentNames found :=
      List.filter_sublist.eq_of_length (Nat.le_antisymm hless hfull.1)
    rw [List.take_of_length_le hfull.2, hwhole] at hmissing
    exact hmissing hname

/-- Every listed file has one fate by its position, or a prefix of them when the turn is stopped; the calls end with
the first one that failed; and the projection tells whether a name is missing from it. -/
theorem downloads_accounted_for (listing : Value) :
    (∀ found (sink : Answers) (stop : Stop), entries listing = some found → ∃ calls fates, handled sink stop 0 found.named = (calls, fates) ∧
      ingest listing sink stop = some ⟨fates.filterMap Fate.reference,
        found.refused ++ losses found.named fates, found.skipped⟩ ∧
      fates.length ≤ found.named.length ∧ (Unstopped sink stop → fates.length = found.named.length) ∧
      (fates.filterMap Fate.reference).length ≤ maxFiles ∧ ∀ call ∈ calls.dropLast, ¬call.failed sink) ∧
    ∀ found, entries listing = some found → ∃ shown, present listing = some shown ∧ (canonicalDownloads shown).isSome = true ∧
      (fieldOf shown "truncated" = .bool true ↔ 0 < found.skipped ∨
        ∃ name ∈ presentNames found, text name ∉ elements (fieldOf shown "files")) := by
  constructor
  · intro found sink stop hentries
    have haccounts := handled_accounts sink stop 0 found.named
    refine ⟨_, _, rfl, ?_, haccounts.within, haccounts.full, haccounts.few, haccounts.last⟩
    unfold ingest
    rw [hentries]
    exact congrArg some (ingestFrom_eq_account sink stop 0 _ found.named)
  · intro found hentries
    refine ⟨presented found, by rw [present, hentries]; rfl, canonicalDownloads_presented found, ?_⟩
    have hfiles (names : List String) (name : String) : text name ∈ names.map text ↔ name ∈ names := by
      simp [text]
    change Value.bool _ = _ ↔ _ ∨ ∃ name ∈ _, text name ∉ ((admittedNames found).take maxDownloadNames).map text
    simp only [hfiles, ← left_out_iff, Value.bool.injEq, Bool.or_eq_true, decide_eq_true_eq, or_assoc]

end ShimpzTeams.Browser
