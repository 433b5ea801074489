import ShimpzTeams.Actions.Result
import ShimpzTeams.Library.Keyed
import ShimpzTeams.Protocol.Value
import ShimpzTeams.Library.Machine

/-!
# The tables of the Action journal and its calls

A generation holds at most one batch row. The operation rows of a batch refer to
it by a foreign key that cascades, so they are kept inside the batch row: they
cannot outlive it, and each statement over one generation reads them there. A
handle is what a caller passes to name a batch. Each call is one serialized write
transaction; one that is refused returns no database, so it commits nothing.
-/

namespace ShimpzTeams.Actions

open StrictJson Protocol Library

inductive BatchState where
  | opened
  | ended
  | archived
  deriving DecidableEq, Repr

/-- The state of an operation row. The table's `CHECK` gives a row a result exactly when it is
completed, and the origin `execution` exactly when it is completed or without effect, so neither is
a column of its own here. -/
inductive OperationState where
  | prepared
  | executing
  | completed (result : String)
  | noEffect
  deriving DecidableEq, Repr

namespace OperationState

def result : OperationState → Option String
  | .completed result => some result
  | _ => none

/-- The `origin` column: whether the execution itself settled the operation. -/
def fromExecution : OperationState → Bool
  | .completed _ | .noEffect => true
  | _ => false

/-- Whether two rows hold one text in the `state` column. -/
def sameState : OperationState → OperationState → Bool
  | .prepared, .prepared | .executing, .executing => true
  | .completed _, .completed _ | .noEffect, .noEffect => true
  | _, _ => false

end OperationState

structure OperationRow where
  ordinal : Nat
  interruptId : String
  fingerprint : String
  operationId : String
  attempts : Nat
  state : OperationState
  deriving DecidableEq, Repr

/-- A row of `batches` with the rows of `operations` that refer to it. -/
structure BatchRow where
  generation : String
  fingerprint : String
  operationCount : Nat
  state : BatchState
  archivable : Bool
  operations : List OperationRow
  deriving DecidableEq, Repr

structure Database where
  batches : List BatchRow
  deriving DecidableEq, Repr

/-- Why the journal could not prove a transition. -/
inductive JournalError where
  | failure (text : String)
  | conflict (text : String)
  | uncertain
  | corrupt (text : String)
  | archived
  deriving DecidableEq, Repr

structure Limits where
  maxGenerations : Nat
  maxOperations : Nat
  maxResultBytes : Nat
  maxArchived : Nat
  deriving DecidableEq, Repr

/-- One Action's identity in a batch. -/
structure Operation where
  interruptId : String
  fingerprint : String
  operationId : Option String
  deriving DecidableEq, Repr

/-- One Brain suspension's immutable batch handle in one generation. -/
structure Batch where
  generation : String
  fingerprint : String
  operations : List Operation
  deriving DecidableEq, Repr

/-- Random bytes for the operation id of each ordinal, where they could be drawn. -/
abbrev Entropy := Nat → Option (Vector UInt8 16)

namespace Database

def batch (db : Database) (generation : String) : Option BatchRow :=
  db.batches.find? fun row => row.generation == generation

def put (db : Database) (row : BatchRow) : Database :=
  ⟨replaceFirst BatchRow.generation row db.batches⟩

/-- `UPDATE batches SET state` for a generation's row that meets a condition, with the number of rows
changed. -/
def updateBatch (db : Database) (generation : String) (holds : BatchRow → Bool) (state : BatchState) : Database × Nat :=
  match db.batch generation with
  | some row => if holds row then (db.put { row with state }, 1) else (db, 0)
  | none => (db, 0)

/-- `UPDATE operations` for a generation's rows of one interrupt in one state, with the number of
rows changed. -/
def updateOperation (db : Database) (generation interruptId : String) (state : OperationState)
    (change : OperationRow → OperationRow) : Database × Nat :=
  match db.batch generation with
  | some row =>
    let chosen := fun item : OperationRow => item.interruptId == interruptId && item.state == state
    (db.put { row with
        operations := row.operations.map fun item => if chosen item then change item else item },
      row.operations.countP chosen)
  | none => (db, 0)

/-- `DELETE FROM batches` for a generation's row that meets a condition, with the number of rows
deleted. -/
def deleteBatch (db : Database) (generation : String) (holds : BatchRow → Bool) : Database × Nat :=
  match db.batch generation with
  | some row =>
    if holds row then (⟨db.batches.filter fun item => item.generation != generation⟩, 1) else (db, 0)
  | none => (db, 0)

/-- `DELETE FROM operations` for a generation. -/
def deleteOperations (db : Database) (generation : String) : Database :=
  match db.batch generation with
  | some row => db.put { row with operations := [] }
  | none => db

/-- `INSERT INTO batches`, refused for a generation that has a row or an operation count of zero. -/
def insertBatch (db : Database) (row : BatchRow) (failure : String) : Except JournalError Database :=
  if (db.batch row.generation).isSome || row.operationCount == 0 then .error (.failure failure)
  else .ok ⟨db.batches ++ [row]⟩

/-- `INSERT INTO operations`, refused without a batch row of the generation and for an ordinal, an
interrupt or an operation id that the generation has. -/
def insertOperation (db : Database) (generation : String) (item : OperationRow) (failure : String) :
    Except JournalError Database :=
  match db.batch generation with
  | none => .error (.failure failure)
  | some row =>
    if row.operations.any fun other =>
        other.interruptId == item.interruptId || other.ordinal == item.ordinal ||
          other.operationId == item.operationId
    then .error (.failure failure)
    else .ok (db.put { row with operations := row.operations ++ [item] })

def rows (db : Database) (generation : String) : List OperationRow :=
  match db.batch generation with
  | some row => row.operations.insertionSort fun left right => left.ordinal ≤ right.ordinal
  | none => []

end Database

def requireChanged (changed : Nat) (message : String) : Except JournalError Unit :=
  if changed = 1 then .ok () else .error (.conflict message)

/-- One write transaction: its work is committed when it succeeds, and a storage failure inside it
has the transaction's text. -/
def writing {α : Type} (failure : String) (work : Except JournalError α) : Except JournalError α :=
  work.mapError fun
    | .failure _ => .failure failure
    | other => other

def Batch.require (batch : Batch) (operation : Operation) : Except JournalError Unit :=
  if batch.operations.contains operation then .ok ()
  else .error (.conflict "operation does not belong to this Action batch")

/-- One random version 4 UUID in canonical lowercase text. -/
def newOperationId (bytes : Vector UInt8 16) : String :=
  let bytes := bytes.set 6 (bytes.get 6 &&& 0x0f ||| 0x40)
  let bytes := bytes.set 8 (bytes.get 8 &&& 0x3f ||| 0x80)
  let digits := (hex bytes.toList).toList
  String.ofList (digits.take 8 ++ '-' :: (digits.drop 8).take 4 ++ '-' :: (digits.drop 12).take 4 ++
    '-' :: (digits.drop 16).take 4 ++ '-' :: digits.drop 20)

/-- What a canonical version 4 UUID may hold at an index. -/
def isIdCharacter (character : Char) (index : Nat) : Bool :=
  if [8, 13, 18, 23].contains index then character == '-'
  else if index = 14 then character == '4'
  else if index = 19 then ['8', '9', 'a', 'b'].contains character
  else isHexLower character

/-- Whether a text is a canonical lowercase version 4 UUID. -/
def validOperationId (text : String) : Bool :=
  text.toList.length == 36 && text.toList.zipIdx.all fun entry => isIdCharacter entry.1 entry.2

/-- Admits an opaque id. -/
def safeId (text : String) : Except JournalError Unit :=
  if safeIdRe text then .ok () else .error (.conflict "an Action journal identifier is invalid")

def Operation.check (operation : Operation) : Except JournalError Unit := do
  safeId operation.interruptId
  if !sha256Re operation.fingerprint then
    .error (.conflict "operation fingerprint is invalid")
  else if operation.operationId.any fun id => !validOperationId id then
    .error (.conflict "operation id is invalid")
  else .ok ()

def batchIdentity [Platform] (generation threadId : String) (operations : List Operation) : Value :=
  .object [
    ("generation", .string generation),
    ("operations", .array (operations.map fun item =>
      .array (.string item.interruptId :: .string item.fingerprint :: (item.operationId.map Value.string).toList))),
    ("thread", .string (sha256Hex threadId))]

def build [Platform] (generation threadId : String) (operations : List Operation) (maximum : Nat) :
    Except JournalError Batch := do
  safeId generation
  safeId threadId
  operations.forM Operation.check
  if operations.isEmpty || maximum < operations.length then
    .error (.conflict "Action batch exceeds the operation count limit")
  else if !(operations.map Operation.interruptId).Nodup then
    .error (.conflict "Action batch repeats an interrupt id")
  else if !(operations.filterMap Operation.operationId).Nodup then
    .error (.conflict "Action batch repeats an operation id")
  else
    .ok ⟨generation, sha256Hex (canonical (batchIdentity generation threadId operations)), operations⟩

def OperationRow.isAt (row : OperationRow) (expected : Operation) (index : Nat) : Bool :=
  row.ordinal == index && row.interruptId == expected.interruptId &&
    row.fingerprint == expected.fingerprint && validOperationId row.operationId &&
    expected.operationId.all fun id => id == row.operationId

/-- The stored rows of a handle's batch, proven to be exactly the handle's open batch. -/
def Database.load (db : Database) (batch : Batch) : Except JournalError (List OperationRow) :=
  match db.batch batch.generation with
  | none => .error (.conflict "Action batch is no longer current")
  | some header =>
    if header.fingerprint == batch.fingerprint && header.state != .opened then
      .error (.conflict "Action batch has ended")
    else
      let rows := db.rows batch.generation
      if header.fingerprint == batch.fingerprint &&
          header.operationCount == batch.operations.length &&
          rows.length == batch.operations.length &&
          (rows.zip batch.operations).zipIdx.all (fun entry => entry.1.1.isAt entry.1.2 entry.2)
      then .ok rows
      else .error (.conflict "Action batch changed or is corrupt")

def Database.operation (db : Database) (batch : Batch) (operation : Operation) :
    Except JournalError OperationRow := do
  let rows ← db.load batch
  match rows.find? fun row => row.interruptId == operation.interruptId with
  | some row => .ok row
  | none => .error (.conflict "Action operation changed, ended, or is corrupt")

section

variable [Platform]

/-- The decision before an invocation, or a completed result to replay, with the operation id. -/
structure Execution where
  execute : Bool
  result : Option Value
  operationId : String

section

omit [Platform]

/-- Admits one more active generation; an archivable one also needs a free archive marker. -/
def reserve (limits : Limits) (db : Database) (archivable : Bool) : Except JournalError Unit :=
  if limits.maxGenerations ≤ db.batches.countP fun row => row.state != .archived then
    .error (.conflict "Action journal generation capacity is exhausted")
  else if archivable && limits.maxArchived ≤ db.batches.countP BatchRow.archivable then
    .error (.conflict "Action journal archive capacity is exhausted")
  else .ok ()

def preparingFailure : String := "Action batch could not be prepared"

/-- The id of a new row: the one a permitted retry repeats, or a minted one. -/
def idOf (operation : Operation) (entropy : Option (Vector UInt8 16)) : Except JournalError String :=
  match operation.operationId with
  | some id => .ok id
  | none =>
    match entropy with
    | some bytes => .ok (newOperationId bytes)
    | none => .error (.failure preparingFailure)

def insertFrom (generation : String) (entropy : Entropy) :
    Nat → List Operation → Database → Except JournalError Database
  | _, [], db => .ok db
  | ordinal, operation :: rest, db => do
      let operationId ← idOf operation (entropy ordinal)
      let next ← db.insertOperation generation
        ⟨ordinal, operation.interruptId, operation.fingerprint, operationId, 0, .prepared⟩
        preparingFailure
      insertFrom generation entropy (ordinal + 1) rest next

def insert (db : Database) (batch : Batch) (archivable : Bool) (entropy : Entropy) :
    Except JournalError Database := do
  let next ← db.insertBatch
    ⟨batch.generation, batch.fingerprint, batch.operations.length, .opened, archivable, []⟩
    preparingFailure
  insertFrom batch.generation entropy 0 batch.operations next

def reopenEnded (db : Database) (batch : Batch) : Except JournalError Database := do
  let updated := db.updateBatch batch.generation
    (fun row => row.fingerprint == batch.fingerprint && row.state == .ended) .opened
  requireChanged updated.2 "ended Action batch changed before replay"
  .ok updated.1

/-- Resumes the exact same batch; an ended one returns to replay its kept receipts. -/
def reopen (db : Database) (batch : Batch) (state : BatchState) : Except JournalError Database := do
  let next ← (if state = .ended then reopenEnded db batch else .ok db)
  let _ ← next.load batch
  .ok next

def retireEnded (db : Database) (batch : Batch) : Except JournalError Database := do
  let ended := (db.rows batch.generation).map OperationRow.interruptId
  if batch.operations.any fun operation => ended.contains operation.interruptId then
    .error (.conflict "Action batch repeats an ended Action interrupt")
  else
    let deleted := db.deleteBatch batch.generation fun row => row.state == .ended
    requireChanged deleted.2 "ended Action batch changed before replacement"
    .ok deleted.1

end

def prepareBatch (limits : Limits) (db : Database) (generation threadId : String)
    (operations : List Operation) (archivable : Bool) (entropy : Entropy) :
    Except JournalError (Batch × Database) := do
  let batch ← build generation threadId operations limits.maxOperations
  let next ← writing preparingFailure <|
    match db.batch batch.generation with
    | none => do
        reserve limits db archivable
        insert db batch archivable entropy
    | some row =>
      if row.state = .archived then .error .archived
      else if row.fingerprint = batch.fingerprint then
        if row.archivable ≠ archivable then
          .error (.conflict "Action batch changed its archive reservation")
        else reopen db batch row.state
      else if row.state = .opened then
        .error (.conflict "another Action batch is pending for this generation")
      else do
        let freed ← retireEnded db batch
        reserve limits freed archivable
        insert freed batch archivable entropy
  .ok (batch, next)

def decode (limits : Limits) (raw : Option String) : Except JournalError Value :=
  let corrupt := JournalError.corrupt "cached Action result is invalid"
  match raw with
  | none => .error corrupt
  | some raw =>
    if limits.maxResultBytes < raw.utf8ByteSize then .error corrupt
    else
      match parse raw with
      | .error _ => .error corrupt
      | .ok value =>
        match canonicalResult value limits.maxResultBytes with
        | .error _ => .error corrupt
        | .ok encoded => if encoded = raw then .ok value else .error corrupt

/-- Begins one operation: a prepared one becomes executing, a completed one replays its result, an
executing one is uncertain. -/
def begin (limits : Limits) (db : Database) (batch : Batch) (operation : Operation) :
    Except JournalError (Execution × Database) := do
  batch.require operation
  writing "Action execution could not begin" do
    let row ← db.operation batch operation
    match row.state with
    | .executing => .error .uncertain
    | .noEffect => .error (.conflict "Action operation already ended without effect")
    | .completed result =>
      let value ← decode limits (some result)
      .ok (⟨false, some value, row.operationId⟩, db)
    | .prepared =>
      let updated := db.updateOperation batch.generation operation.interruptId .prepared
        fun item => { item with state := .executing, attempts := item.attempts + 1 }
      requireChanged updated.2 "Action operation changed before execution"
      .ok (⟨true, none, row.operationId⟩, updated.1)

section

omit [Platform]

def settle (db : Database) (batch : Batch) (operation : Operation) (state : OperationState) :
    Except JournalError Database := do
  batch.require operation
  writing "Action result could not be committed" do
    let row ← db.operation batch operation
    if row.state.sameState state && row.state.fromExecution then
      if row.state.result = state.result then .ok db
      else .error (.conflict "Action result changed after completion")
    else if row.state ≠ .executing then
      .error (.conflict "Action operation was not executing")
    else
      let updated := db.updateOperation batch.generation operation.interruptId .executing
        fun item => { item with state }
      requireChanged updated.2 "Action operation changed before completion"
      .ok updated.1

/-- A handled failure of a read-only Action had no business effect. -/
def failWithoutEffect (db : Database) (batch : Batch) (operation : Operation) : Except JournalError Database :=
  settle db batch operation .noEffect

def reprepare (db : Database) (batch : Batch) (operation : Operation) (failure : String) :
    Except JournalError Database := do
  batch.require operation
  writing failure do
    let row ← db.operation batch operation
    if row.state ≠ .executing then .error (.conflict "Action operation was not executing")
    else
      let updated := db.updateOperation batch.generation operation.interruptId .executing
        fun item => { item with state := .prepared }
      requireChanged updated.2 "Action operation changed before it returned to prepared"
      .ok updated.1

/-- Returns one proven human-request suspension to deterministic replay. -/
def suspend (db : Database) (batch : Batch) (operation : Operation) : Except JournalError Database :=
  reprepare db batch operation "Action suspension could not be committed"

/-- Returns an attempt refused before its workload process started to prepared. -/
def notDispatched (db : Database) (batch : Batch) (operation : Operation) : Except JournalError Database :=
  reprepare db batch operation "Action dispatch refusal could not be committed"

end

/-- The execution itself returned a result. -/
def complete (limits : Limits) (db : Database) (batch : Batch) (operation : Operation)
    (result : Value) : Except JournalError Database :=
  match canonicalResult result limits.maxResultBytes with
  | .error _ => .error (.conflict "Action result is not bounded canonical JSON")
  | .ok encoded => settle db batch operation (.completed encoded)

section

omit [Platform]

/-- Whether the exact batch is still its generation's: another batch is refused. -/
def current (db : Database) (batch : Batch) (replaced : String) : Except JournalError Bool :=
  match db.batch batch.generation with
  | none => .ok false
  | some row => if row.fingerprint = batch.fingerprint then .ok true else .error (.conflict replaced)

def delete (db : Database) (batch : Batch) (message : String) : Except JournalError Database := do
  let deleted := db.deleteBatch batch.generation fun row => row.fingerprint == batch.fingerprint
  requireChanged deleted.2 message
  .ok deleted.1

/-- Ends one handled terminal attempt only when its exact batch is uncertain; whether it did. -/
def abandonUncertain (db : Database) (batch : Batch) : Except JournalError (Bool × Database) :=
  writing "uncertain Action batch could not be abandoned" do
    if !(← current db batch "a newer Action batch replaced this abandonment handle") then
      .ok (false, db)
    else
      let rows ← db.load batch
      if rows.all fun row => row.state != .executing then .ok (false, db)
      else
        let next ← delete db batch "Action batch changed before terminal abandonment"
        .ok (true, next)

def endSettledStates (db : Database) (generation : String) (states : List OperationState) :
    Except JournalError (Bool × Database) :=
  if states.any fun state => state == .executing then .ok (false, db)
  else do
    let updated := db.updateBatch generation (fun row => row.state == .opened) .ended
    requireChanged updated.2 "Action batch changed before it ended"
    .ok (true, updated.1)

/-- Ends one exact undelivered batch at a terminal turn unless one of its operations may have acted;
whether it did. -/
def endBatch (db : Database) (batch : Batch) : Except JournalError (Bool × Database) :=
  writing "Action batch could not be ended" <|
    match db.batch batch.generation with
    | none => .ok (false, db)
    | some row =>
      if row.fingerprint = batch.fingerprint ∧ row.state = .ended then .ok (false, db)
      else if row.fingerprint ≠ batch.fingerprint then
        .error (.conflict "a newer Action batch replaced this ending handle")
      else do
        let rows ← db.load batch
        endSettledStates db batch.generation (rows.map OperationRow.state)

def openStates (db : Database) (generation : String) : List OperationState :=
  match db.batch generation with
  | some row => if row.state = .opened then row.operations.map OperationRow.state else []
  | none => []

/-- Ends a generation's undelivered open batch before a fresh turn unless one of its operations may
have acted. -/
def endSettled (db : Database) (generation : String) : Except JournalError Database := do
  safeId generation
  writing "settled Action generation could not be ended" <|
    if (openStates db generation).isEmpty then .ok db
    else do
      let ended ← endSettledStates db generation (openStates db generation)
      .ok ended.2

end

def delivered (limits : Limits) (db : Database) (batch : Batch) : Except JournalError Database :=
  writing "Action batch delivery could not be committed" do
    if !(← current db batch "a newer Action batch replaced this delivery handle") then .ok db
    else
      let rows ← db.load batch
      if rows.any fun row => row.state.result.isNone then
        .error (.conflict "Action batch cannot be delivered before every result exists")
      else
        rows.forM fun row => (decode limits row.state.result).map fun _ => ()
        delete db batch "Action batch changed before delivery"

section

omit [Platform]

def archive (db : Database) (generation fingerprint : String) : Except JournalError Database := do
  safeId generation
  writing "Action batch could not be archived" <|
    match (db.batch generation).filter fun row => row.fingerprint == fingerprint with
    | none => .error (.conflict "Action batch is no longer current")
    | some row =>
      if row.state = .archived then .ok db
      else if !row.archivable then
        .error (.conflict "Action batch holds no archive reservation")
      else do
        let updated := db.updateBatch generation
          (fun item => item.fingerprint == row.fingerprint) .archived
        requireChanged updated.2 "Action batch changed before it was archived"
        .ok (updated.1.deleteOperations generation)

/-- Removes a settled archive marker; an already-absent one is done. -/
def releaseArchive (db : Database) (generation fingerprint : String) :
    Except JournalError Database := do
  safeId generation
  writing "Action archive could not be released" <|
    match db.batch generation with
    | none => .ok db
    | some row =>
      if row.fingerprint = fingerprint ∧ row.state = .archived then
        .ok (db.deleteBatch generation fun _ => true).1
      else .error (.conflict "Action generation holds no such archived batch")

def remove (db : Database) (failure generation : String) (holds : BatchRow → Bool) :
    Except JournalError Database := do
  safeId generation
  writing failure (.ok (db.deleteBatch generation holds).1)

/-- Removes an ended run's live batch, keeping an archive marker. -/
def discard (db : Database) (generation : String) : Except JournalError Database :=
  remove db "Action generation could not be discarded" generation fun row => row.state != .archived

/-- Removes everything a generation holds, archive marker included. -/
def purge (db : Database) (generation : String) : Except JournalError Database :=
  remove db "Action generation could not be purged" generation fun _ => true

/-- Removes exactly one batch, whatever its state; an absent one is done. -/
def purgeBatch (db : Database) (generation fingerprint : String) : Except JournalError Database :=
  if !sha256Re fingerprint then .error (.conflict "Action batch fingerprint is invalid")
  else remove db "Action batch could not be purged" generation fun row => row.fingerprint == fingerprint

end

/-- A call of the journal that writes. -/
inductive Request where
  | prepareBatch (generation threadId : String) (operations : List Operation) (archivable : Bool)
      (entropy : Entropy)
  | begin (batch : Batch) (operation : Operation)
  | complete (batch : Batch) (operation : Operation) (result : Value)
  | failWithoutEffect (batch : Batch) (operation : Operation)
  | suspend (batch : Batch) (operation : Operation)
  | notDispatched (batch : Batch) (operation : Operation)
  | delivered (batch : Batch)
  | abandonUncertain (batch : Batch)
  | endBatch (batch : Batch)
  | endSettled (generation : String)
  | archive (generation fingerprint : String)
  | releaseArchive (generation fingerprint : String)
  | discard (generation : String)
  | purge (generation : String)
  | purgeBatch (generation fingerprint : String)

/-- The database a call commits. -/
def perform (limits : Limits) (db : Database) : Request → Except JournalError Database
  | .prepareBatch generation threadId operations archivable entropy =>
    (prepareBatch limits db generation threadId operations archivable entropy).map Prod.snd
  | .begin batch operation => (begin limits db batch operation).map Prod.snd
  | .complete batch operation result => complete limits db batch operation result
  | .failWithoutEffect batch operation => failWithoutEffect db batch operation
  | .suspend batch operation => suspend db batch operation
  | .notDispatched batch operation => notDispatched db batch operation
  | .delivered batch => delivered limits db batch
  | .abandonUncertain batch => (abandonUncertain db batch).map Prod.snd
  | .endBatch batch => (endBatch db batch).map Prod.snd
  | .endSettled generation => endSettled db generation
  | .archive generation fingerprint => archive db generation fingerprint
  | .releaseArchive generation fingerprint => releaseArchive db generation fingerprint
  | .discard generation => discard db generation
  | .purge generation => purge db generation
  | .purgeBatch generation fingerprint => purgeBatch db generation fingerprint

def emptyDatabase : Database := ⟨[]⟩

/-- The database after some calls on the empty one; a refused call commits nothing. -/
def journalAfter (limits : Limits) (requests : List Request) : Database :=
  runFrom (perform limits) emptyDatabase requests

end

variable {operation : Operation} {done : Unit}

section

variable {db next : Database} {generation interruptId : String} {row : BatchRow}

theorem writing_eq_ok {α failure work} {result : α} : writing failure work = .ok result ↔ work = .ok result := by
  cases work with
  | error refusal => simp [writing, Except.mapError]
  | ok value => simp [writing, Except.mapError]

theorem requireChanged_eq_ok {changed message} : requireChanged changed message = .ok done ↔ changed = 1 := by
  by_cases h : changed = 1
  · simp [requireChanged, h]
  · simp [requireChanged, h]

theorem safeId_eq_ok {text} : safeId text = .ok done ↔ safeIdRe text = true := by
  cases h : safeIdRe text with
  | true => simp [safeId, h]
  | false => simp [safeId, h]

theorem require_eq_ok {batch : Batch} : batch.require operation = .ok done ↔ operation ∈ batch.operations := by
  by_cases h : operation ∈ batch.operations
  · simp [Batch.require, h]
  · simp [Batch.require, h]

namespace Database

theorem generation_of_batch (h : db.batch generation = some row) : row.generation = generation :=
  (find?_key_mem h).2

theorem mem_of_batch (h : db.batch generation = some row) : row ∈ db.batches :=
  (find?_key_mem h).1

theorem batch_put (hrow : db.batch generation = some row) {updated}
    (hkey : updated.generation = generation) : (db.put updated).batch generation = some updated :=
  find?_replaceFirst_self hrow hkey

theorem batch_put_ne {updated} (hkey : updated.generation ≠ generation) :
    (db.put updated).batch generation = db.batch generation :=
  find?_replaceFirst_ne hkey

theorem put_put {updated later} (hkey : later.generation = updated.generation) :
    (db.put updated).put later = db.put later :=
  congrArg Database.mk (replaceFirst_replaceFirst hkey)

def without (db : Database) (generation : String) : Database :=
  ⟨db.batches.filter fun item => item.generation != generation⟩

theorem batch_without : (db.without generation).batch generation = none := by
  refine List.find?_eq_none.mpr fun item hitem => ?_
  simpa using (List.mem_filter.mp hitem).2

/-- A generation keeps its batch when another's is deleted. -/
theorem batch_without_ne {other} (hne : other ≠ generation) :
    (db.without other).batch generation = db.batch generation := by
  rw [Database.batch, Database.without, List.find?_filter]
  congr 1
  funext item
  by_cases h : item.generation = generation
  · simp [h, Ne.symm hne]
  · simp [h]

def add (db : Database) (row : BatchRow) : Database := ⟨db.batches ++ [row]⟩

theorem batch_add (hnone : db.batch row.generation = none) : (db.add row).batch row.generation = some row := by
  rw [Database.batch] at hnone
  simp [Database.batch, Database.add, List.find?_append, hnone]

theorem batch_add_ne (hne : row.generation ≠ generation) : (db.add row).batch generation = db.batch generation := by
  simp [Database.batch, Database.add, List.find?_append, hne]

/-- The last batch of a database is the only one replaced when it is the only one of its
generation. -/
theorem put_add {updated} (hnone : db.batch row.generation = none)
    (hkey : updated.generation = row.generation) : (db.add row).put updated = db.add updated := by
  refine congrArg Database.mk (replaceFirst_append (fun item hitem => ?_) hkey.symm)
  rw [hkey]
  exact find?_key_eq_none hnone hitem

theorem updateBatch_one {holds state} (h : (db.updateBatch generation holds state).2 = 1) :
    ∃ row, db.batch generation = some row ∧ holds row = true ∧
      (db.updateBatch generation holds state).1 = db.put { row with state } := by
  cases hrow : db.batch generation with
  | none => simp [updateBatch, hrow] at h
  | some row =>
    cases hholds : holds row with
    | false => simp [updateBatch, hrow, hholds] at h
    | true => exact ⟨row, rfl, hholds, by simp [updateBatch, hrow, hholds]⟩

theorem deleteBatch_cases (db : Database) (generation holds) :
    db.deleteBatch generation holds = (db, 0) ∨ ∃ row, db.batch generation = some row ∧ holds row = true ∧
      db.deleteBatch generation holds = (db.without generation, 1) := by
  cases hrow : db.batch generation with
  | none => exact .inl (by simp [deleteBatch, hrow])
  | some row =>
    cases hholds : holds row with
    | false => exact .inl (by simp [deleteBatch, hrow, hholds])
    | true => exact .inr ⟨row, rfl, hholds, by simp [deleteBatch, hrow, hholds, without]⟩

theorem deleteBatch_one {holds} (h : (db.deleteBatch generation holds).2 = 1) :
    ∃ row, db.batch generation = some row ∧ holds row = true ∧
      (db.deleteBatch generation holds).1 = db.without generation := by
  rcases db.deleteBatch_cases generation holds with hkept | ⟨row, hrow, hholds, hnext⟩
  · simp [hkept] at h
  · exact ⟨row, hrow, hholds, by rw [hnext]⟩

end Database

end

section

/-- An operation row after the statement that moves the rows of an interrupt from one state to
another; entering `executing` counts an attempt. -/
def OperationRow.move (interruptId : String) (source target : OperationState) (item : OperationRow) : OperationRow :=
  if item.interruptId == interruptId && item.state == source then
    { item with
      state := target
      attempts := if target = .executing then item.attempts + 1 else item.attempts }
  else item

def BatchRow.move (interruptId : String) (source target : OperationState) (row : BatchRow) : BatchRow :=
  { row with operations := row.operations.map (OperationRow.move interruptId source target) }

variable {interruptId : String} {source target : OperationState} {item : OperationRow}

@[simp]
theorem OperationRow.ordinal_move : (item.move interruptId source target).ordinal = item.ordinal := by
  simp only [OperationRow.move]
  split <;> rfl

@[simp]
theorem OperationRow.interruptId_move : (item.move interruptId source target).interruptId = item.interruptId := by
  simp only [OperationRow.move]
  split <;> rfl

@[simp]
theorem OperationRow.fingerprint_move : (item.move interruptId source target).fingerprint = item.fingerprint := by
  simp only [OperationRow.move]
  split <;> rfl

@[simp]
theorem OperationRow.operationId_move : (item.move interruptId source target).operationId = item.operationId := by
  simp only [OperationRow.move]
  split <;> rfl

theorem OperationRow.move_of_ne (h : ¬(item.interruptId = interruptId ∧ item.state = source)) :
    item.move interruptId source target = item := by
  rw [OperationRow.move, if_neg (by simpa using h)]

theorem OperationRow.state_move (hinterrupt : item.interruptId = interruptId)
    (hstate : item.state = source) : (item.move interruptId source target).state = target := by
  rw [OperationRow.move, if_pos (by simp [hinterrupt, hstate])]

/-- A stored row is the operation that a handle names, whatever its state and ordinal. -/
structure OperationRow.Matches (item : OperationRow) (expected : Operation) : Prop where
  interruptId : item.interruptId = expected.interruptId
  fingerprint : item.fingerprint = expected.fingerprint
  valid : validOperationId item.operationId = true
  operationId : ∀ id, expected.operationId = some id → id = item.operationId

/-- Two rows that one generation may hold. -/
def OperationRow.Apart (left right : OperationRow) : Prop :=
  left.interruptId ≠ right.interruptId ∧ left.operationId ≠ right.operationId

structure BatchRow.Stores (row : BatchRow) (batch : Batch) : Prop where
  generation : row.generation = batch.generation
  fingerprint : row.fingerprint = batch.fingerprint
  operationCount : row.operationCount = batch.operations.length
  ordinals : row.operations.map OperationRow.ordinal = List.range row.operationCount
  rows : List.Forall₂ OperationRow.Matches row.operations batch.operations

end

variable {rows : List OperationRow}

section

variable {db : Database} {batch : Batch} {row : BatchRow}

theorem Database.mem_rows {generation} (hrow : db.batch generation = some row) {item} :
    item ∈ db.rows generation ↔ item ∈ row.operations := by
  simp [Database.rows, hrow]

/-- What a handle that is loaded proves of the stored batch. -/
theorem Database.load_eq_ok (h : db.load batch = .ok rows) :
    ∃ row, db.batch batch.generation = some row ∧ row.fingerprint = batch.fingerprint ∧
      row.state = .opened ∧ rows = db.rows batch.generation := by
  cases hrow : db.batch batch.generation with
  | none => simp [Database.load, hrow] at h
  | some row =>
    simp only [Database.load, hrow] at h
    obtain ⟨hstate, h⟩ := guard_eq_ok.mp h
    split at h
    next hmatches =>
      simp only [Bool.and_eq_true, beq_iff_eq] at hmatches
      have hfingerprint := hmatches.1.1.1
      refine ⟨row, rfl, hfingerprint, ?_, (Except.ok.inj h).symm⟩
      simpa [hfingerprint] using hstate
    · cases h

/-- What the row of one of a handle's operations proves of the stored batch. -/
theorem Database.operation_eq_ok {item} (h : db.operation batch operation = .ok item) :
    ∃ row, db.batch batch.generation = some row ∧ row.fingerprint = batch.fingerprint ∧
      row.state = .opened ∧ item ∈ row.operations ∧ item.interruptId = operation.interruptId := by
  obtain ⟨rows, hload, hfind⟩ := bind_eq_ok.mp h
  obtain ⟨row, hrow, hfingerprint, hstate, rfl⟩ := Database.load_eq_ok hload
  split at hfind
  next found heq =>
    cases hfind
    obtain ⟨hmem, hinterrupt⟩ := find?_key_mem heq
    exact ⟨row, hrow, hfingerprint, hstate, (Database.mem_rows hrow).mp hmem, hinterrupt⟩
  · cases hfind

end

variable {ordinal : Nat}

section

variable {entropy : Entropy}

inductive Inserted (entropy : Entropy) : Nat → List Operation → List OperationRow → Prop where
  | nil (ordinal : Nat) : Inserted entropy ordinal [] []
  | cons {ordinal operation id rest rows} (hid : idOf operation (entropy ordinal) = .ok id)
      (hrest : Inserted entropy (ordinal + 1) rest rows) :
      Inserted entropy ordinal (operation :: rest)
        (⟨ordinal, operation.interruptId, operation.fingerprint, id, 0, .prepared⟩ :: rows)

theorem insertFrom_eq_ok {operations} :
    ∀ {ordinal : Nat} {db next : Database} {row : BatchRow}, db.batch row.generation = none →
      insertFrom row.generation entropy ordinal operations (db.add row) = .ok next →
      row.operations.Pairwise OperationRow.Apart →
      ∃ rows, next = db.add { row with operations := row.operations ++ rows } ∧
        Inserted entropy ordinal operations rows ∧ (row.operations ++ rows).Pairwise OperationRow.Apart := by
  induction operations with
  | nil =>
    intro ordinal db next row _ h hapart
    cases h
    exact ⟨[], by simp, .nil ordinal, by simpa using hapart⟩
  | cons operation rest ih =>
    intro ordinal db next row hnone h hapart
    obtain ⟨id, hid, h⟩ := bind_eq_ok.mp h
    obtain ⟨middle, hinsert, h⟩ := bind_eq_ok.mp h
    simp only [Database.insertOperation, Database.batch_add hnone] at hinsert
    obtain ⟨hnew, hinsert⟩ := guard_eq_ok.mp hinsert
    rw [Database.put_add hnone ?_] at hinsert
    on_goal 2 => rfl
    cases hinsert
    have happend : (row.operations ++ [(⟨ordinal, operation.interruptId, operation.fingerprint, id,
        0, .prepared⟩ : OperationRow)]).Pairwise OperationRow.Apart := by
      refine List.pairwise_append.mpr ⟨hapart, List.pairwise_singleton _ _, ?_⟩
      intro other hother item hitem
      obtain rfl := List.mem_singleton.mp hitem
      simp only [Bool.not_eq_true, List.any_eq_false, Bool.or_eq_true, beq_iff_eq, not_or] at hnew
      exact ⟨(hnew other hother).1.1, (hnew other hother).2⟩
    obtain ⟨rows, rfl, hrows, hall⟩ :=
      @ih (ordinal + 1) db next { row with operations := row.operations ++ [_] } hnone h happend
    exact ⟨_ :: rows, by simp, .cons hid hrows, by simpa using hall⟩

variable {operations : List Operation}

theorem Inserted.ordinals (h : Inserted entropy ordinal operations rows) :
    rows.map OperationRow.ordinal = List.range' ordinal operations.length := by
  induction h with
  | nil ordinal => rfl
  | cons _ _ ih => rw [List.map_cons, ih, List.length_cons, List.range'_succ]

theorem Inserted.prepared (h : Inserted entropy ordinal operations rows) : ∀ item ∈ rows, item.state = .prepared := by
  induction h with
  | nil ordinal => exact fun _ hitem => nomatch hitem
  | cons _ _ ih => exact List.forall_mem_cons.mpr ⟨rfl, ih⟩

/-- The hexadecimal digits of a byte's halves are lowercase. -/
theorem isHexLower_hexDigit : ∀ nibble < 16, isHexLower (hexDigit nibble) = true := by decide

/-- A byte with the version bits set starts with `4`. -/
theorem version_digit (byte) : hexDigit ((byte &&& 0x0f ||| 0x40) / 16) = '4' := by
  rw [Nat.or_div_two_pow (n := 4), Nat.and_div_two_pow (n := 4)]
  simp [hexDigit]

/-- A byte with the variant bits set starts with `8`, `9`, `a` or `b`. -/
theorem variant_digit {byte} (h : byte < 256) :
    ['8', '9', 'a', 'b'].contains (hexDigit ((byte &&& 0x3f ||| 0x80) / 16)) = true := by
  have hnibble : ∀ nibble < 16, ['8', '9', 'a', 'b'].contains (hexDigit (nibble &&& 3 ||| 8)) = true := by decide
  rw [Nat.or_div_two_pow (n := 4), Nat.and_div_two_pow (n := 4)]
  exact hnibble _ (Nat.div_lt_of_lt_mul h)

/-- A minted operation id is a canonical version 4 UUID. -/
theorem validOperationId_new (bytes) : validOperationId (newOperationId bytes) = true := by
  have hhigh : ∀ byte : UInt8, isHexLower (hexDigit (byte.toNat / 16)) = true := fun byte =>
    isHexLower_hexDigit _ (Nat.div_lt_of_lt_mul byte.toNat_lt)
  have hlow : ∀ value : Nat, isHexLower (hexDigit (value % 16)) = true := fun value =>
    isHexLower_hexDigit _ (Nat.mod_lt _ (by decide))
  obtain ⟨⟨list⟩, hsize⟩ := bytes
  match list, hsize with
  | [b0, b1, b2, b3, b4, b5, b6, b7, b8, b9, b10, b11, b12, b13, b14, b15], _ =>
    have hversion := version_digit b6.toNat
    have hvariant := variant_digit b8.toNat_lt
    simp only [List.contains_cons, List.contains_nil, Bool.or_false, Bool.or_eq_true, beq_iff_eq] at hvariant
    simp [validOperationId, newOperationId, hex, Vector.get, isIdCharacter, hhigh, hlow, hversion, hvariant]

theorem idOf_valid {bytes id} (hadmitted : ∀ id, operation.operationId = some id → validOperationId id = true)
    (h : idOf operation bytes = .ok id) :
    validOperationId id = true ∧ ∀ given, operation.operationId = some given → given = id := by
  cases hgiven : operation.operationId with
  | some given =>
    simp only [idOf, hgiven, Except.ok.injEq] at h
    subst h
    exact ⟨hadmitted given hgiven, fun other hother => (Option.some.inj hother).symm⟩
  | none =>
    cases bytes with
    | none => simp [idOf, hgiven] at h
    | some bytes =>
      simp only [idOf, hgiven, Except.ok.injEq] at h
      subst h
      exact ⟨validOperationId_new bytes, fun other hother => nomatch hother⟩

theorem Inserted.matches (h : Inserted entropy ordinal operations rows)
    (hadmitted : ∀ operation ∈ operations, ∀ id, operation.operationId = some id →
      validOperationId id = true) : List.Forall₂ OperationRow.Matches rows operations := by
  induction h with
  | nil ordinal => exact .nil
  | cons hid hrest ih =>
    obtain ⟨hfirst, hothers⟩ := List.forall_mem_cons.mp hadmitted
    obtain ⟨hvalid, hgiven⟩ := idOf_valid hfirst hid
    exact .cons ⟨rfl, rfl, hvalid, hgiven⟩ (ih hothers)

structure BatchRow.Fresh (row : BatchRow) (batch : Batch) (archivable : Bool) : Prop where
  stores : row.Stores batch
  opened : row.state = .opened
  archivable : row.archivable = archivable
  apart : row.operations.Pairwise OperationRow.Apart
  prepared : ∀ item ∈ row.operations, item.state = .prepared

theorem insert_eq_ok {db next batch archivable}
    (hadmitted : ∀ operation ∈ batch.operations, ∀ id, operation.operationId = some id →
      validOperationId id = true) (h : insert db batch archivable entropy = .ok next) :
    ∃ row, db.batch batch.generation = none ∧ next = db.add row ∧ row.Fresh batch archivable := by
  obtain ⟨middle, hbatch, h⟩ := bind_eq_ok.mp h
  obtain ⟨hnew, hbatch⟩ := guard_eq_ok.mp hbatch
  cases hbatch
  have hnone : db.batch batch.generation = none := by simp_all
  obtain ⟨rows, rfl, hrows, hapart⟩ :=
    @insertFrom_eq_ok entropy batch.operations 0 db next ⟨_, _, _, _, _, []⟩ hnone h .nil
  refine ⟨_, hnone, rfl, ⟨rfl, rfl, rfl, ?_, hrows.matches hadmitted⟩, rfl, rfl, hapart, hrows.prepared⟩
  rw [List.nil_append, hrows.ordinals, List.range_eq_range']

end

variable [Platform]

omit [Platform] in
theorem check_eq_ok (h : operation.check = .ok ()) {id} (hid : operation.operationId = some id) :
    validOperationId id = true := by
  obtain ⟨_, _, h⟩ := bind_eq_ok.mp h
  obtain ⟨_, h⟩ := guard_eq_ok.mp h
  obtain ⟨hvalid, _⟩ := guard_eq_ok.mp h
  simpa [hid] using hvalid

/-- What a handle that was built promises. -/
theorem build_eq_ok {generation threadId operations maximum batch} (h : build generation threadId operations maximum = .ok batch) :
    safeIdRe generation = true ∧ batch.generation = generation ∧ batch.operations = operations ∧
      operations ≠ [] ∧ ∀ operation ∈ operations, ∀ id, operation.operationId = some id →
        validOperationId id = true := by
  obtain ⟨_, hgeneration, h⟩ := bind_eq_ok.mp h
  obtain ⟨_, _, h⟩ := bind_eq_ok.mp h
  obtain ⟨_, hadmitted, h⟩ := bind_eq_ok.mp h
  obtain ⟨hcount, h⟩ := guard_eq_ok.mp h
  obtain ⟨_, h⟩ := guard_eq_ok.mp h
  obtain ⟨_, h⟩ := guard_eq_ok.mp h
  cases h
  refine ⟨safeId_eq_ok.mp hgeneration, rfl, rfl, ?_, fun operation hoperation id hid => ?_⟩
  · rintro rfl
    simp at hcount
  · exact check_eq_ok (forM_eq_ok.mp hadmitted operation hoperation) hid

end ShimpzTeams.Actions
