import ShimpzTeams.Protocol.Value
import ShimpzTeams.Protocol.RoundTrip
import ShimpzTeams.Library.Programs

/-!
# The hash-chained audit log

A line is compact JSON with sorted keys and ASCII escapes, without a line break before
its own. There are the current file and two rotated ones, and the one writer a process
has of them. Any call to the operating system may fail, and a failed append may have
put part of its line into the file. A process that is killed between two calls leaves
what a failure of the second one leaves, so a crash is a failure and a restart. The
files, oldest first, are lines, each with the SHA-256 of the line before it; every
operation keeps this, unless a record finds the file still open on a torn line.
-/

namespace ShimpzTeams.Audit

open StrictJson Protocol List

/-- A named member of an event. -/
abbrev Field := String × Value

/-- A value whose integers outside 64 bits are spelled in decimal, as the value type keeps them. -/
inductive Spelled : Value → Prop where
  | null : Spelled .null
  | bool (flag : Bool) : Spelled (.bool flag)
  | int (value : Int) : Spelled (.number (.int value))
  | bigInt (value : Int) : Spelled (.number (.bigInt (toString value)))
  | float (bits : BitVec 64) : Spelled (.number (.float bits))
  | string (text : String) : Spelled (.string text)
  | array {items : List Value} (hitems : ∀ item ∈ items, Spelled item) : Spelled (.array items)
  | object {members : List Field} (hmembers : ∀ member ∈ members, Spelled member.2) :
      Spelled (.object members)

/-- One metadata-only audit event: its fields, in the order they were set. -/
structure AuditEvent where
  fields : List Field
  spelled : ∀ field ∈ fields, Spelled field.2

namespace AuditEvent

/-- An event without fields. -/
def new : AuditEvent := ⟨[], by simp⟩

def setField (event : AuditEvent) (name : String) (value : Value) (hvalue : Spelled value) : AuditEvent where
  fields := event.fields.filter (fun field => field.1 != name) ++ [(name, value)]
  spelled := by
    intro field hfield
    rcases mem_append.mp hfield with hkept | hset
    · exact event.spelled field (mem_filter.mp hkept).1
    · rw [mem_singleton.mp hset]
      exact hvalue

def get (event : AuditEvent) (name : String) : Option Value :=
  (event.fields.find? fun field => field.1 == name).map Prod.snd

end AuditEvent

def credentialStates : List String :=
  ["assertion_absent_or_malformed", "assertion_present", "assertion_rejected", "machine_bearer_present",
    "machine_bearer_rejected"]

def activityOperations : List String :=
  ["browser-sign-in-start", "browser-sign-in-save", "browser-sign-in-cancel", "browser-sign-in-delete",
    "browser-sign-in-expire", "memory-remember", "memory-forget", "memory-evicted"]

def activityKeys : List String :=
  ["event_id", "phase", "subject", "generation", "incarnation", "factor", "initiator_id", "origin", "outcome"]

def activityPhases : List String := ["requested", "completed", "failed"]

def maxActivityOriginChars : Nat := 255

/-- The fields every event may carry. -/
def principalFields : List String :=
  ["operation", "result", "principal_id", "principal_class", "credential_state", "trace_id"]

/-- A lowercase letter, a digit, or a hyphen. -/
def isNameByte (character : Char) : Bool :=
  character.isLower || character.isDigit || character == '-'

/-- `^[a-z][a-z0-9-]{0,63}$`. -/
def machineId (text : String) : Bool :=
  match text.toList with
  | [] => false
  | first :: rest => rest.length ≤ 63 && first.isLower && rest.all isNameByte

/-- `^[0-9a-z][0-9a-z-]{0,127}$`. -/
def activityText (text : String) : Bool :=
  match text.toList with
  | [] => false
  | first :: rest => rest.length ≤ 127 && (first.isLower || first.isDigit) && rest.all isNameByte

def principalHolds : Option Value → Option Value → Bool
  | some (.string cls), some .null => cls == "absent"
  | some (.string cls), some (.string id) =>
    if cls == "human" then isHexText 32 id else if cls == "machine" then machineId id else false
  | _, _ => false

section

/- The one spelling of a failed Action's cause, and of an HTTP origin. -/
variable (canonicalCause : Value → Option Value) (canonicalOrigin : String → Option String)

/-- A cause is exactly one canonical closed cause, member order included. -/
def causeHolds (cause : Value) : Bool :=
  cause == .null || (canonicalCause cause).any fun canonical => canonical == cause

/-- `team`, or one exact, bounded origin. -/
def originHolds : Value → Bool
  | .string origin => origin == "team" ||
      (origin.length ≤ maxActivityOriginChars && canonicalOrigin origin == some origin)
  | _ => false

def activityMemberHolds (member : Field) : Bool :=
  activityKeys.contains member.1 &&
    if member.1 == "origin" then originHolds canonicalOrigin member.2
    else match member.2 with
      | .string text => activityText text
      | .number (.int number) => 0 ≤ number && number < 2 ^ 31
      | _ => false

def activityHolds : Value → Bool
  | .object members =>
    members.any (fun member => member.1 == "event_id") &&
    (match (Value.object members).get "phase" with
      | some (.string phase) => activityPhases.contains phase
      | _ => false) &&
    members.all (activityMemberHolds canonicalOrigin)
  | _ => false

def textOrAbsent (check : String → Bool) : Option Value → Bool
  | none => true
  | some (.string text) => check text
  | _ => false

def textOrNull : Option Value → Bool
  | none | some .null | some (.string _) => true
  | _ => false

/-- The admitted fields of one event, before the writer adds its own: a field whose value is null is
left out, except the principal's id. -/
def admitEvent (event : AuditEvent) : Option (List Field) :=
  match event.get "operation" with
  | some (.string operation) =>
    let activity := (event.get "activity").filter fun value => value != .null
    let allowed := if activity.isSome then ["team_id", "activity"]
      else ["team_id", "assistant", "detail", "model_usage", "cause"]
    if event.fields.any (fun field => !principalFields.contains field.1 && !allowed.contains field.1)
    then none
    else if !principalHolds (event.get "principal_class") (event.get "principal_id")
      || !(match event.get "result" with
        | some (.string result) => ["denied", "error", "ok"].contains result
        | _ => false)
      || !textOrAbsent credentialStates.contains (event.get "credential_state")
      || !textOrAbsent (isHexText 32) (event.get "trace_id")
      || ! ["team_id", "assistant", "detail"].all (fun name => textOrNull (event.get name))
      || !(match event.get "model_usage" with
        | none | some .null | some (.array _) => true
        | _ => false)
      || !(event.get "cause").all (causeHolds canonicalCause)
      || activity.any (fun value =>
        !activityOperations.contains operation || !activityHolds canonicalOrigin value)
    then none
    else some (event.fields.filter fun field => field.1 == "principal_id" || field.2 != .null)
  | _ => none

theorem spelled_of_admitEvent {fields event} (h : admitEvent canonicalCause canonicalOrigin event = some fields) :
    ∀ field ∈ fields, Spelled field.2 := by
  unfold admitEvent at h
  split at h
  · simp only [Option.ite_none_left_eq_some] at h
    obtain ⟨-, -, h⟩ := h
    cases h
    exact fun field hfield => event.spelled field (mem_filter.mp hfield).1
  · cases h

end

section

variable {character : Char}

def newline : UInt8 := 10

theorem newline_ne_ofNat {value : Nat} (h : value % 256 ≠ 10) : newline ≠ UInt8.ofNat value := by
  intro heq
  have hvalue := congrArg UInt8.toNat heq
  rw [UInt8.toNat_ofNat'] at hvalue
  exact h hvalue.symm

/-- A line break is the only character whose encoding has its byte. -/
theorem newline_notMem_utf8EncodeChar (h : character ≠ '\n') : newline ∉ String.utf8EncodeChar character := by
  have hcode : character.val.toNat ≠ 10 := by
    intro heq
    exact h (Char.ext (UInt32.toNat.inj heq))
  intro hmem
  unfold String.utf8EncodeChar at hmem
  dsimp only at hmem
  split at hmem
  · exact newline_ne_ofNat (by omega) (mem_singleton.mp hmem)
  split at hmem
  · simp only [mem_cons, not_mem_nil, or_false] at hmem
    rcases hmem with hmem | hmem <;> exact newline_ne_ofNat (by omega) hmem
  split at hmem
  · simp only [mem_cons, not_mem_nil, or_false] at hmem
    rcases hmem with hmem | hmem | hmem <;> exact newline_ne_ofNat (by omega) hmem
  · simp only [mem_cons, not_mem_nil, or_false] at hmem
    rcases hmem with hmem | hmem | hmem | hmem <;> exact newline_ne_ofNat (by omega) hmem

theorem hexDigit_ne_break : ∀ nibble < 16, hexDigit nibble ≠ '\n' := by decide

theorem unbroken_pushEscape (unit) : '\n' ∉ pushEscape unit := by
  have hdigit (value : Nat) : '\n' ≠ hexDigit (value % 16) := (hexDigit_ne_break _ (Nat.mod_lt _ (by decide))).symm
  unfold pushEscape
  simp only [mem_cons, not_mem_nil, or_false, hdigit]
  decide

theorem unbroken_writeChar (character) : '\n' ∉ writeChar true character := by
  unfold writeChar
  split
  · decide
  split
  · decide
  split
  · decide
  split
  · decide
  split
  · decide
  split
  · decide
  split
  · decide
  split
  · exact unbroken_pushEscape _
  split
  · simp_all [eq_comm]
  · simp [unbroken_pushEscape]

theorem unbroken_writeString (text) : '\n' ∉ writeString text true := by
  unfold writeString
  simp [unbroken_writeChar]

theorem mem_of_mem_intercalate {α : Type} {separator : List α} {lists item} (h : item ∈ separator.intercalate lists) :
    item ∈ separator ∨ ∃ list ∈ lists, item ∈ list := by
  unfold List.intercalate at h
  induction lists with
  | nil => simp at h
  | cons first rest ih =>
    cases rest with
    | nil =>
      have hfirst : item ∈ first := by simpa using h
      exact .inr ⟨first, mem_cons_self, hfirst⟩
    | cons second others =>
      simp only [intersperse_cons_cons, flatten_cons, mem_append] at h
      rcases h with hfirst | hseparator | hrest
      · exact .inr ⟨first, mem_cons_self, hfirst⟩
      · exact .inl hseparator
      · refine (ih hrest).imp_right ?_
        rintro ⟨list, hlist, hitem⟩
        exact ⟨list, mem_cons_of_mem _ hlist, hitem⟩

theorem isDigit_ne_break (h : character.isDigit = true) : character ≠ '\n' := by
  rintro rfl
  cases h

theorem unbroken_digits (value) : '\n' ∉ Nat.toDigits 10 value := by
  intro hmem
  exact isDigit_ne_break (Nat.isDigit_of_mem_toDigits (by decide) (by decide) hmem) rfl

theorem unbroken_intText (value : Int) : '\n' ∉ (toString value).toList := by
  rw [toList_intText]
  split <;> simp [unbroken_digits]

theorem unbroken_twoDigits (value) : '\n' ∉ twoDigits value := by
  unfold twoDigits
  simp only [toList_natText, mem_append, not_or]
  refine ⟨fun hmem => ?_, unbroken_digits value⟩
  exact absurd (eq_of_mem_replicate hmem) (by decide)

theorem unbroken_positional {digits} (h : '\n' ∉ digits) (exponent) : '\n' ∉ positional digits exponent := by
  unfold positional
  have htake (count : Nat) : '\n' ∉ digits.take count := fun hmem => h (mem_of_mem_take hmem)
  have hdrop (count : Nat) : '\n' ∉ digits.drop count := fun hmem => h (mem_of_mem_drop hmem)
  dsimp only
  split
  · simp [h]
  split
  · simp [h]
  · simp [htake, hdrop]

variable [Platform]

theorem unbroken_floatRepr (bits) : '\n' ∉ floatRepr bits := by
  have hdigits : '\n' ∉ (scientificParts (Platform.formatExp bits).toList).1 := by
    intro hmem
    exact isDigit_ne_break (mem_filter.mp hmem).2 rfl
  generalize hparts : scientificParts (Platform.formatExp bits).toList = parts at hdigits
  obtain ⟨digits, exponent⟩ := parts
  have htake : '\n' ∉ digits.take 1 := fun hmem => hdigits (mem_of_mem_take hmem)
  have hdrop : '\n' ∉ digits.drop 1 := fun hmem => hdigits (mem_of_mem_drop hmem)
  unfold floatRepr
  rw [hparts]
  dsimp only
  rw [mem_append, not_or]
  constructor
  · split <;> decide
  split
  · exact unbroken_positional hdigits exponent
  · simp only [mem_append, mem_cons, not_or]
    refine ⟨⟨htake, ?_⟩, by decide, ?_, unbroken_twoDigits _⟩
    · split
      · simp
      · simpa using hdrop
    · split <;> decide

/-- No line break stands in the ASCII text of a value. -/
theorem unbroken_writeValue {value : Value} (h : Spelled value) : '\n' ∉ writeValue ⟨true, true, true⟩ value := by
  induction h with
  | null => simp [writeValue]
  | bool flag => cases flag <;> simp [writeValue]
  | int value => exact unbroken_intText value
  | bigInt value => exact unbroken_intText value
  | float bits => exact unbroken_floatRepr bits
  | string text => exact unbroken_writeString text
  | @array items _ ih =>
    rw [writeValue, writeItems_eq_map]
    intro hmem
    simp only [mem_append, mem_cons, not_mem_nil, or_false] at hmem
    rcases hmem with (hopen | hitems) | hclose
    · exact absurd hopen (by decide)
    · rcases mem_of_mem_intercalate hitems with hcomma | ⟨text, htext, hmem⟩
      · exact absurd hcomma (by decide)
      · obtain ⟨item, hitem, rfl⟩ := mem_map.mp htext
        exact ih item hitem hmem
    · exact absurd hclose (by decide)
  | @object members _ ih =>
    rw [writeValue, writeMembers_eq_map]
    intro hmem
    simp only [mem_append, mem_cons, not_mem_nil, or_false] at hmem
    rcases hmem with (hopen | hmembers) | hclose
    · exact absurd hopen (by decide)
    · rcases mem_of_mem_intercalate hmembers with hcomma | ⟨text, htext, hmem⟩
      · exact absurd hcomma (by decide)
      · obtain ⟨entry, hentry, rfl⟩ := mem_map.mp htext
        have hlisted := (perm_insertionSort _ _).mem_iff.mp hentry
        obtain ⟨member, hmember, rfl⟩ := mem_map.mp hlisted
        simp only [writeMember, mem_append] at hmem
        rcases hmem with (hname | hcolon) | hvalue
        · exact unbroken_writeString _ hname
        · exact absurd hcolon (by decide)
        · exact ih member hmember hvalue
    · exact absurd hclose (by decide)

/-- The encoding of an event's fields: sorted keys, compact separators, ASCII escapes. -/
def lineText (fields : List Field) : List UInt8 := utf8 (dumps (.object fields) ⟨true, true, true⟩)

/-- The line of an event that carries this `prev_sha256`. -/
def line (fields : List Field) (chain : String) : List UInt8 :=
  lineText (fields ++ [("prev_sha256", .string chain)]) ++ [newline]

/-- A line holds no line break before its own. -/
theorem newline_notMem_lineText {fields} (h : ∀ field ∈ fields, Spelled field.2) : newline ∉ lineText fields := by
  unfold lineText dumps
  rw [utf8_ofList]
  intro hmem
  obtain ⟨character, hcharacter, hbyte⟩ := mem_flatMap.mp hmem
  refine newline_notMem_utf8EncodeChar ?_ hbyte
  rintro rfl
  exact unbroken_writeValue (.object h) hcharacter

end

open Library

/-- The `prev_sha256` of the first line ever written. -/
def genesis : String := "0000000000000000000000000000000000000000000000000000000000000000"

/-- The most a file's last line is searched for. -/
def maxScannedBytes : Nat := 8 * (1024 * 1024)

inductive AuditError where
  | inadmissible
  | unwritten
  | closed
  deriving DecidableEq, Repr

/-- A log file: the current one, or one of the rotated two, the newer first. -/
inductive Place where
  | current
  | first
  | second
  deriving DecidableEq, Repr

/-- The log's files. What rotation has removed, oldest first, is kept for the statements only. -/
structure Disk where
  current : Option (List UInt8)
  first : Option (List UInt8)
  second : Option (List UInt8)
  removed : List UInt8

def Disk.empty : Disk := ⟨none, none, none, []⟩

def Disk.file (disk : Disk) : Place → Option (List UInt8)
  | .current => disk.current
  | .first => disk.first
  | .second => disk.second

def Disk.setFile (disk : Disk) (place : Place) (content : List UInt8) : Disk :=
  match place with
  | .current => { disk with current := some content }
  | .first => { disk with first := some content }
  | .second => { disk with second := some content }

/-- The writer of one process: whether it holds the current file open, the SHA-256 of the last line
written or found, whether a line waits for its sync, and whether the log failed or is closing. -/
structure Writer where
  file : Bool
  chain : Option String
  dirty : Bool
  failed : Bool
  stopping : Bool
  flusher : Bool

/-- The writer of a process that has not recorded yet. -/
def Writer.default : Writer := ⟨false, none, false, false, false, false⟩

/-- The log as one process sees it, and whether its flusher thread runs. -/
structure Log where
  disk : Disk
  writer : Writer
  worker : Bool

/-- The log of a first process. -/
def Log.new : Log := ⟨.empty, .default, false⟩

inductive Call where
  | openedMetadata
  | openedCustody
  | openedIdentity
  | sync
  | directory
  | custody
  | scanCustody (place : Place)
  | scanRead (place : Place)
  | scanAppend (place : Place)
  | scanEnd (place : Place)
  | rotateFacts
  | rotateCustody (place : Place)
  | rotateRemove
  | rotateRename (place : Place)
  | create
  | createdCustody
  | spawn
  deriving DecidableEq, Repr

/-- What the operating system does during one operation: the calls that fail, and, when the append
of the line fails, how much of the line it put into the file. -/
structure Faults where
  fails : Call → Bool
  wrote : Option Nat

/-- An operating system that fails nothing. -/
def Faults.none : Faults := ⟨fun _ => false, .none⟩

abbrev Operation := Effect Log AuditError

def call (faults : Faults) (site : Call) : Operation Unit :=
  if faults.fails site then throw .unwritten else pure ()

def Log.closed (log : Log) : Log := { log with writer := { log.writer with file := false, chain := none } }

/-- The bytes after the last line break before the final byte. -/
def finalLine (content : List UInt8) : List UInt8 :=
  content.dropLast.rtakeWhile (· != newline) ++ content.getLast?.toList

/-- The last line of one log file, or nothing when it holds none. A torn final write is ended with its
line break first. -/
def lastLine (faults : Faults) (place : Place) : Operation (Option (List UInt8)) := do
  call faults (.scanCustody place)
  let log ← get
  match log.disk.file place with
  | none => pure none
  | some content =>
    call faults (.scanRead place)
    if maxScannedBytes < content.length then throw .unwritten
    else if content.isEmpty then pure none
    else if content.getLast? = some newline then pure (some (finalLine content))
    else do
      call faults (.scanAppend place)
      call faults (.scanEnd place)
      modify fun log => { log with disk := log.disk.setFile place (content ++ [newline]) }
      pure (some (finalLine (content ++ [newline])))

def Disk.dropOldest (disk : Disk) : Disk :=
  { disk with second := none, removed := disk.removed ++ disk.second.getD [] }

/-- Renames the newest rotated file to the oldest. -/
def Disk.shiftRotated (disk : Disk) : Disk := { disk with second := disk.first, first := none }

/-- Renames the current file to the newest rotated one. -/
def Disk.shiftCurrent (disk : Disk) : Disk := { disk with first := disk.current, current := none }

/-- Applies a change of the files. -/
def onDisk (change : Disk → Disk) : Operation Unit :=
  modify fun log => { log with disk := change log.disk }

def removeOldest (faults : Faults) : Operation Unit := do
  call faults (.rotateCustody .second)
  let log ← get
  if log.disk.second.isSome then do
    call faults .rotateRemove
    onDisk Disk.dropOldest
  else pure ()

def renameRotated (faults : Faults) : Operation Unit := do
  call faults (.rotateCustody .first)
  let log ← get
  if log.disk.first.isSome then do
    call faults (.rotateRename .first)
    onDisk Disk.shiftRotated
  else pure ()

def rotate (maxBytes : Nat) (faults : Faults) : Operation Unit := do
  call faults .rotateFacts
  let log ← get
  if log.disk.current.all fun content => content.length ≤ maxBytes then pure ()
  else do
    removeOldest faults
    renameRotated faults
    call faults (.rotateRename .current)
    onDisk Disk.shiftCurrent

/-- Commits the current file when a line waits for it; a failure closes the log for good. -/
def syncLocked (faults : Faults) : Operation Unit := do
  let log ← get
  if log.writer.file && log.writer.dirty then
    if faults.fails .sync then do
      modify fun log => { log with writer := { log.writer with failed := true } }
      throw .closed
    else modify fun log => { log with writer := { log.writer with dirty := false } }
  else pure ()

section

variable [Platform]

def lineSha256 (bytes : List UInt8) : String := hex (Platform.sha256 bytes).toList

/-- The current file's last line, or the newest rotated file's when a rotation was interrupted before its
first line. -/
def findLast (faults : Faults) : Operation (Option (List UInt8)) := do
  let here ← lastLine faults .current
  match here with
    | some text => pure (some text)
    | none => lastLine faults .first

def reopen (maxBytes : Nat) (faults : Faults) : Operation Unit := do
  call faults .directory
  call faults .custody
  let found ← findLast faults
  rotate maxBytes faults
  call faults .create
  onDisk fun disk => { disk with current := some (disk.current.getD []) }
  call faults .createdCustody
  modify fun log =>
    { log with writer := { log.writer with file := true, chain := some (found.elim genesis lineSha256) } }

/-- Keeps the open file while it is not over its size; an oversized file is synchronized, closed, and
rotated first. -/
def openLocked (maxBytes : Nat) (faults : Faults) : Operation Unit := do
  let log ← get
  if log.writer.file then do
    call faults .openedMetadata
    call faults .openedCustody
    call faults .openedIdentity
    if (log.disk.current.getD []).length ≤ maxBytes then pure ()
    else do
      syncLocked faults
      modify Log.closed
      reopen maxBytes faults
  else reopen maxBytes faults

def Disk.append (bytes : List UInt8) (disk : Disk) : Disk :=
  { disk with current := some (disk.current.getD [] ++ bytes) }

/-- Starts the flusher thread when there is none. -/
def ensureFlusher (faults : Faults) : Operation Unit := do
  let log ← get
  if log.writer.flusher || faults.fails .spawn then pure ()
  else modify fun log => { log with writer := { log.writer with flusher := true }, worker := true }

def writeLine (faults : Faults) (text : List UInt8) : Operation Unit :=
  match faults.wrote with
  | some count => do
      onDisk (Disk.append (text.dropLast.take count))
      throw .unwritten
  | none => do
      onDisk (Disk.append text)
      modify fun log =>
        { log with writer := { log.writer with chain := some (lineSha256 text), dirty := true } }
      ensureFlusher faults

def appendLine (maxBytes : Nat) (faults : Faults) (fields : List Field) : Operation Unit := do
  let log ← get
  if log.writer.failed || log.writer.stopping then throw .closed
  else do
    openLocked maxBytes faults
    let opened ← get
    if !opened.writer.file then throw .unwritten
    else writeLine faults (line fields (opened.writer.chain.getD genesis))

end

/-- What a record draws: a trace id, unless the random source cannot answer, and the time. -/
structure Draw where
  traceId : Option String
  timestamp : String

section

/- The one spelling of a failed Action's cause, and of an HTTP origin. -/
variable (canonicalCause : Value → Option Value) (canonicalOrigin : String → Option String)

def givenTrace (fields : List Field) : Option String :=
  fields.findSome? fun field => match field.2 with
    | .string traceId => if field.1 == "trace_id" then some traceId else none
    | _ => none

def prepare (event : AuditEvent) (draw : Draw) : Except AuditError (List Field × String) :=
  match admitEvent canonicalCause canonicalOrigin event with
  | none => .error .inadmissible
  | some fields =>
    let added := [("ts", Value.string draw.timestamp), ("service", Value.string "team-local")]
    match givenTrace fields, draw.traceId with
    | some traceId, _ => .ok (fields ++ added, traceId)
    | none, none => .error .unwritten
    | none, some traceId => .ok (fields ++ [("trace_id", .string traceId)] ++ added, traceId)

variable [Platform]

def recordBlocking (maxBytes : Nat) (faults : Faults) (event : AuditEvent) (draw : Draw) : Operation String :=
  match prepare canonicalCause canonicalOrigin event draw with
  | .error refusal => throw refusal
  | .ok (fields, traceId) => do
      appendLine maxBytes faults fields
      pure traceId

end

/-- Synchronizes every event recorded before this call. -/
def flush (faults : Faults) : Operation Unit := do
  let log ← get
  if log.writer.failed || log.writer.stopping then throw .closed else syncLocked faults

/-- The flusher thread ends, and closes the writer's file. -/
def Log.ended (log : Log) : Log := { log.closed with worker := false }

/-- One pass of the flusher thread with the lock; `due` says whether the group commit's time has come. -/
def flushWorker (faults : Faults) (due : Bool) : Operation Unit := do
  let log ← get
  if !log.worker then pure ()
  else if log.writer.stopping then do
    tryCatch (syncLocked faults) (fun _ => pure ())
    modify Log.ended
  else if log.writer.failed then modify Log.ended
  else if log.writer.dirty && due then
    tryCatch (syncLocked faults) (fun _ => modify Log.ended)
  else pure ()

def failedCloses : Operation Unit := do
  let log ← get
  if log.writer.failed then throw .closed else pure ()

/-- The first half of closing: the flusher is told to stop, or, without one, the file is synchronized
and closed at once. -/
def beginClose (faults : Faults) : Operation Unit := do
  let log ← get
  if log.writer.flusher then
    modify fun log => { log with writer := { log.writer with flusher := false, stopping := true } }
  else do
    tryCatch (syncLocked faults) (fun _ => pure ())
    modify Log.closed
    failedCloses

/-- The second half, once the flusher has ended. -/
def endClose : Operation Unit := do
  let log ← get
  if log.worker then pure ()
  else do
    modify fun log => { log with writer := { log.writer with stopping := false } }
    failedCloses

/-- A new process over the files the last one left. -/
def Log.restarted (log : Log) : Log := ⟨log.disk, .default, false⟩

open Effect List

/-- The lines of a file, each with its line break; what follows the last break is a line without one. -/
def lines : List UInt8 → List (List UInt8)
  | [] => []
  | byte :: rest =>
    if byte = newline then [newline] :: lines rest
    else match lines rest with
      | [] => [[byte]]
      | first :: others => (byte :: first) :: others

theorem lines_line {text} (h : newline ∉ text) (rest) :
    lines (text ++ newline :: rest) = (text ++ [newline]) :: lines rest := by
  induction text with
  | nil => simp [lines]
  | cons byte others ih =>
    rw [mem_cons, not_or] at h
    rw [cons_append, lines, if_neg (Ne.symm h.1), ih h.2]
    rfl

theorem lines_tail {text} (h : newline ∉ text) (hne : text ≠ []) : lines text = [text] := by
  induction text with
  | nil => exact absurd rfl hne
  | cons byte others ih =>
    rw [mem_cons, not_or] at h
    rw [lines, if_neg (Ne.symm h.1)]
    cases others with
    | nil => rfl
    | cons second rest => rw [ih h.2 (cons_ne_nil _ _)]

theorem rtakeWhile_append {text} (h : newline ∉ text) (earlier : List UInt8) :
    (earlier ++ text).rtakeWhile (· != newline) = earlier.rtakeWhile (· != newline) ++ text := by
  induction text using List.reverseRecOn with
  | nil => simp
  | append_singleton others byte ih =>
    rw [mem_append, not_or, mem_singleton] at h
    rw [← append_assoc, rtakeWhile_concat_pos _ _ _ (by simpa using Ne.symm h.2), ih h.1, append_assoc]

variable [Platform]

/-- The line of one event with this link, as far as it was written, without its line break. -/
def Begun (chain : String) (text : List UInt8) : Prop :=
  ∃ fields : List Field, (∀ field ∈ fields, Spelled field.2) ∧ text <+: (line fields chain).dropLast

/-- Whole lines that follow one another from a link on, and the link the next line carries. -/
inductive Chained (start : String) : List UInt8 → String → Prop
  | nil : Chained start [] start
  | snoc {bytes text chain} (hbytes : Chained start bytes chain) (htext : Begun chain text) :
      Chained start (bytes ++ (text ++ [newline])) (lineSha256 (text ++ [newline]))

variable {start chain finish : String} {bytes text tail : List UInt8}

theorem dropLast_line (fields chain) :
    (line fields chain).dropLast = lineText (fields ++ [("prev_sha256", .string chain)]) := by
  unfold line
  exact dropLast_concat

theorem line_eq (fields chain) : line fields chain = (line fields chain).dropLast ++ [newline] := by
  rw [dropLast_line]
  rfl

theorem Begun.newline_notMem (h : Begun chain text) : newline ∉ text := by
  obtain ⟨fields, hspelled, htext⟩ := h
  intro hmem
  have hline := htext.subset hmem
  rw [dropLast_line] at hline
  refine newline_notMem_lineText ?_ hline
  intro field hfield
  rcases mem_append.mp hfield with hgiven | hlink
  · exact hspelled field hgiven
  · rw [mem_singleton.mp hlink]
    exact .string chain

theorem begun_nil (chain) : Begun chain [] :=
  ⟨[], by simp, nil_prefix⟩

theorem Chained.trans (hbytes : Chained start bytes chain) (htail : Chained chain tail finish) :
    Chained start (bytes ++ tail) finish := by
  induction htail with
  | nil => rwa [append_nil]
  | snoc _ htext ih =>
    rw [← append_assoc]
    exact ih.snoc htext

theorem Chained.eq_of_nil (h : Chained start [] chain) : chain = start := by
  generalize hbytes : ([] : List UInt8) = bytes at h
  cases h with
  | nil => rfl
  | snoc _ _ => simp at hbytes

theorem Chained.lines_append (h : Chained start bytes chain) (rest) :
    lines (bytes ++ rest) = lines bytes ++ lines rest := by
  induction h generalizing rest with
  | nil => rfl
  | @snoc bytes text chain _ htext ih =>
    have hline (rest : List UInt8) : lines (text ++ [newline] ++ rest) = (text ++ [newline]) :: lines rest := by
      rw [append_assoc]
      exact lines_line htext.newline_notMem rest
    have halone : lines (text ++ [newline]) = [text ++ [newline]] := lines_line htext.newline_notMem []
    rw [append_assoc, ih, ih, hline, halone, append_assoc]
    rfl

/-- The last line's hash is the link the next line carries. -/
theorem Chained.sha256_getLast (h : Chained start bytes chain) :
    ∀ last ∈ (lines bytes).getLast?, lineSha256 last = chain := by
  cases h with
  | nil => simp [lines]
  | snoc hbytes htext =>
    intro last hlast
    rw [hbytes.lines_append, lines_line htext.newline_notMem [], getLast?_append] at hlast
    cases hlast
    rfl

/-- A line of the log by the link it carries: the whole line of one event, or the start of one that a
failed write left, ended by a line break unless it is still the last. -/
inductive Starts (chain : String) : List UInt8 → Prop
  | whole (fields : List Field) : Starts chain (line fields chain)
  | torn {text : List UInt8} (htext : Begun chain text) : Starts chain (text ++ [newline])
  | last {text : List UInt8} (htext : Begun chain text) : Starts chain text

def Links (before text : List UInt8) : Prop := Starts (lineSha256 before) text

theorem Begun.starts_of_mem (h : Begun chain tail) (htext : text ∈ lines tail) : Starts chain text := by
  by_cases hne : tail = []
  · subst hne
    cases htext
  · rw [lines_tail h.newline_notMem hne, mem_singleton] at htext
    subst htext
    exact .last h

section

variable (h : Chained start bytes chain)

include h

/-- One more line after whole ones. -/
theorem isChain_concat (hchain : (lines bytes).IsChain Links)
    (htext : Starts chain text) : (lines bytes ++ [text]).IsChain Links := by
  refine isChain_append.mpr ⟨hchain, isChain_singleton _, ?_⟩
  intro last hlast next hnext
  cases hnext
  unfold Links
  rw [h.sha256_getLast last hlast]
  exact htext

theorem Chained.isChain : (lines bytes).IsChain Links := by
  induction h with
  | nil => exact List.IsChain.nil
  | snoc hbytes htext ih =>
    rw [hbytes.lines_append, lines_line htext.newline_notMem []]
    exact isChain_concat hbytes ih (.torn htext)

theorem Chained.starts_of_mem (htext : text ∈ lines bytes) : ∃ link, Starts link text := by
  induction h with
  | nil => cases htext
  | @snoc _ begun link hbytes hbegun ih =>
    rw [hbytes.lines_append, lines_line hbegun.newline_notMem [], mem_append] at htext
    rcases htext with hearlier | hnew
    · exact ih hearlier
    · exact ⟨link, by rw [mem_singleton.mp hnew]; exact .torn hbegun⟩

/-- Whole lines and a last one, torn or not there yet. -/
theorem Chained.isChain_append_tail (htail : Begun chain tail) : (lines (bytes ++ tail)).IsChain Links := by
  rw [h.lines_append]
  by_cases hne : tail = []
  · subst hne
    rw [lines, append_nil]
    exact h.isChain
  · rw [lines_tail htail.newline_notMem hne]
    exact isChain_concat h h.isChain (.last htail)

/-- A file of whole lines is empty or ends in a line break. -/
theorem Chained.ended : bytes = [] ∨ bytes.getLast? = some newline := by
  cases h with
  | nil => exact .inl rfl
  | snoc _ _ => exact .inr (by simp)

/-- The last line that the search finds is the one the next line has to link to. -/
theorem Chained.sha256_finalLine (hne : bytes ≠ []) : lineSha256 (finalLine bytes) = chain := by
  cases h with
  | nil => exact absurd rfl hne
  | @snoc earlier text link hbytes htext =>
    have hfinal : finalLine (earlier ++ (text ++ [newline])) = text ++ [newline] := by
      unfold finalLine
      rw [← append_assoc, dropLast_concat, getLast?_concat]
      rw [rtakeWhile_append htext.newline_notMem]
      rcases hbytes.ended with hnil | hended
      · rw [hnil, rtakeWhile_nil]
        rfl
      · obtain ⟨before, rfl⟩ := getLast?_eq_some_iff.mp hended
        rw [rtakeWhile_concat_neg _ _ _ (by simp)]
        rfl
    rw [hfinal]

end

end ShimpzTeams.Audit
