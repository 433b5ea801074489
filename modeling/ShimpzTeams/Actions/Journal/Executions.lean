import ShimpzTeams.Actions.Journal.RowLife

/-!
# No operation is executed twice without a proof, and the journal's capacities

The handle that last prepared a live batch is exactly what the batch stores. An
archive marker stays until it is released or purged; archiving never needs room. While
a row stays, its operation id is fixed: a second answer to execute needs a suspension
or a refused dispatch of that operation in between, and a completed row stays
completed with its result, which every later answer replays.
-/

namespace ShimpzTeams.Actions

open StrictJson Protocol Library List

section

variable {db : Database} {row : BatchRow} {batch : Batch}

theorem isAt_iff {item : OperationRow} {expected index} :
    item.isAt expected index = true ↔ item.ordinal = index ∧ item.Matches expected := by
  simp only [OperationRow.isAt, Bool.and_eq_true, beq_iff_eq]
  constructor
  · rintro ⟨⟨⟨⟨hordinal, hinterrupt⟩, hfingerprint⟩, hvalid⟩, hid⟩
    refine ⟨hordinal, hinterrupt, hfingerprint, hvalid, fun id hsome => ?_⟩
    simpa [hsome] using hid
  · rintro ⟨hordinal, hmatches⟩
    refine ⟨⟨⟨⟨hordinal, hmatches.interruptId⟩, hmatches.fingerprint⟩, hmatches.valid⟩, ?_⟩
    cases hid : expected.operationId with
    | none => rfl
    | some id => simpa using hmatches.operationId id hid

/-- Rows that are checked one by one against a handle's operations. -/
theorem all_isAt_iff {rows} : ∀ {operations : List Operation} {start : Nat}, rows.length = operations.length →
      (((rows.zip operations).zipIdx start).all (fun entry => entry.1.1.isAt entry.1.2 entry.2) = true ↔
        rows.map OperationRow.ordinal = List.range' start rows.length ∧
          List.Forall₂ OperationRow.Matches rows operations) := by
  induction rows with
  | nil =>
    intro operations start hlength
    obtain rfl := length_eq_zero_iff.mp hlength.symm
    simp
  | cons item rest ih =>
    intro operations start hlength
    cases operations with
    | nil => cases hlength
    | cons operation others =>
      have hrest := @ih others (start + 1) (Nat.succ.inj hlength)
      simp only [zip_cons_cons, zipIdx_cons, all_cons, Bool.and_eq_true, hrest,
        isAt_iff, map_cons, length_cons, List.range'_succ, List.cons.injEq,
        List.forall₂_cons]
      constructor
      · rintro ⟨⟨hordinal, hmatches⟩, hordinals, hothers⟩
        exact ⟨⟨hordinal, hordinals⟩, hmatches, hothers⟩
      · rintro ⟨⟨hordinal, hordinals⟩, hmatches, hothers⟩
        exact ⟨⟨hordinal, hmatches⟩, hordinals, hothers⟩

theorem rows_eq_operations {generation} (hrow : db.batch generation = some row)
    (hordinals : row.operations.map OperationRow.ordinal = List.range row.operationCount) :
    db.rows generation = row.operations := by
  have hsorted : (row.operations.map OperationRow.ordinal).Pairwise (· < ·) := by
    rw [hordinals]
    exact pairwise_lt_range
  simp only [Database.rows, hrow]
  exact List.Pairwise.insertionSort_eq ((pairwise_map.mp hsorted).imp fun hlt => Nat.le_of_lt hlt)

theorem stores_of_load {rows} (hsound : row.Sound)
    (hrow : db.batch batch.generation = some row) (h : db.load batch = .ok rows) : row.Stores batch := by
  obtain ⟨_, hfound, _, hopen, rfl⟩ := Database.load_eq_ok h
  obtain rfl := Option.some.inj (hrow.symm.trans hfound)
  have hordinals := hsound.ordinals (by simp [hopen])
  simp only [Database.load, hrow, rows_eq_operations hrow hordinals] at h
  obtain ⟨_, h⟩ := guard_eq_ok.mp h
  split at h
  next hmatches =>
    simp only [Bool.and_eq_true, beq_iff_eq] at hmatches
    obtain ⟨⟨⟨hfingerprint, hcount⟩, hlength⟩, hall⟩ := hmatches
    exact ⟨Database.generation_of_batch hrow, hfingerprint, hcount, hordinals, ((all_isAt_iff hlength).mp hall).2⟩
  · cases h

theorem load_of_stores (hrow : db.batch batch.generation = some row) (hstores : row.Stores batch)
    (hopen : row.state = .opened) : db.load batch = .ok row.operations := by
  have hlength := hstores.rows.length_eq
  have hall := (@all_isAt_iff row.operations batch.operations 0 hlength).mpr
    ⟨by rw [hstores.ordinals, hstores.operationCount, hlength, range_eq_range'], hstores.rows⟩
  simp only [Database.load, hrow, rows_eq_operations hrow hstores.ordinals]
  rw [if_neg (by simp [hopen]), if_pos]
  simp only [Bool.and_eq_true, beq_iff_eq]
  exact ⟨⟨⟨hstores.fingerprint, hstores.operationCount⟩, hlength⟩, hall⟩

theorem BatchRow.Stores.move (h : row.Stores batch) (interruptId source target) :
    (row.move interruptId source target).Stores batch := by
  refine ⟨h.generation, h.fingerprint, h.operationCount, ?_, ?_⟩
  · rw [BatchRow.move, map_map]
    refine (map_congr_left fun item _ => ?_).trans h.ordinals
    exact OperationRow.ordinal_move
  · refine List.forall₂_map_left_iff.mpr (h.rows.imp fun {item expected} hmatches => ?_)
    constructor
    · simpa using hmatches.interruptId
    · simpa using hmatches.fingerprint
    · simpa using hmatches.valid
    · simpa using hmatches.operationId

end

section

variable {archivable : Bool}

section

variable [Platform] {limits : Limits} {db next : Database} {request : Request} {batch : Batch} {generation : String}

/-- The handle that a call of `prepare_batch` returned. -/
def preparedBatch (limits : Limits) : Database × Request → Option Batch
  | (db, .prepareBatch generation threadId operations archivable entropy) =>
    (prepareBatch limits db generation threadId operations archivable entropy).toOption.map Prod.fst
  | _ => none

def lastPrepared (limits : Limits) (requests : List Request) (generation : String) : Option Batch :=
  ((applied (perform limits) emptyDatabase requests).filterMap (preparedBatch limits)).reverse.find?
    fun batch => batch.generation == generation

theorem lastPrepared_refused {requests refusal}
    (h : perform limits (journalAfter limits requests) request = .error refusal) :
    lastPrepared limits (requests ++ [request]) generation = lastPrepared limits requests generation := by
  rw [lastPrepared, applied_snoc_error h, lastPrepared]

theorem lastPrepared_committed {requests} (h : perform limits (journalAfter limits requests) request = .ok next) :
    lastPrepared limits (requests ++ [request]) generation =
      ((preparedBatch limits (journalAfter limits requests, request)).filter
        fun batch => batch.generation == generation).or (lastPrepared limits requests generation) := by
  have happlied : applied (perform limits) emptyDatabase (requests ++ [request]) =
      applied (perform limits) emptyDatabase requests ++ [(journalAfter limits requests, request)] :=
    applied_snoc_ok h
  rw [lastPrepared, happlied, filterMap_append, reverse_append, find?_append, ← lastPrepared]
  cases hbatch : preparedBatch limits (journalAfter limits requests, request) with
  | none =>
    rw [filterMap_cons_none hbatch]
    rfl
  | some batch =>
    rw [filterMap_cons_some hbatch]
    by_cases hkey : batch.generation = generation
    · simp [hkey, Option.filter]
    · simp [hkey, Option.filter]

theorem stores_of_prepared (hsound : db.Sound limits) {generation threadId operations entropy}
    (h : prepareBatch limits db generation threadId operations archivable entropy = .ok (batch, next)) :
    ∃ row, next.batch batch.generation = some row ∧ row.Stores batch := by
  obtain ⟨hchange, hstored | ⟨rows, hload⟩⟩ := prepareBatch_change h
  · exact hstored
  · obtain ⟨found, hfound, _⟩ := Database.load_eq_ok hload
    exact ⟨found, hfound, stores_of_load ((hchange.sound hsound).batch hfound) hfound hload⟩

/-- A handle that a committed call returned is what the call stored. -/
theorem stores_of_preparedBatch (hsound : db.Sound limits) (hok : perform limits db request = .ok next)
    (h : preparedBatch limits (db, request) = some batch) :
    ∃ row, next.batch batch.generation = some row ∧ row.Stores batch := by
  cases request with
  | prepareBatch generation threadId operations archivable entropy =>
    obtain ⟨⟨made, _⟩, hmade, rfl⟩ := map_eq_ok.mp hok
    rw [preparedBatch, hmade] at h
    cases h
    exact stores_of_prepared hsound hmade
  | _ => cases h

/-- The handle of a committed call is the batch it prepares. -/
theorem preparedBatch_of_prepares (hok : perform limits db request = .ok next)
    (h : request.Prepares limits batch archivable) : preparedBatch limits (db, request) = some batch := by
  obtain ⟨generation, threadId, operations, entropy, rfl, hbuild⟩ := h
  obtain ⟨⟨made, _⟩, hmade, _⟩ := map_eq_ok.mp hok
  rw [preparedBatch, hmade]
  obtain ⟨built, hbuilt, hmade⟩ := bind_eq_ok.mp hmade
  obtain ⟨_, _, hmade⟩ := bind_eq_ok.mp hmade
  obtain rfl := Except.ok.inj (hbuild.symm.trans hbuilt)
  rw [← (Prod.mk.inj (Except.ok.inj hmade)).1]
  rfl

theorem Change.stores (hchange : Change limits db request next) {after}
    (hafter : next.batch generation = some after) (hlive : after.state ≠ .archived) :
    (∃ row, db.batch generation = some row ∧ row.state ≠ .archived ∧ ∀ batch, row.Stores batch → after.Stores batch) ∨
      ∃ batch archivable, request.Prepares limits batch archivable ∧ batch.generation = generation := by
  have hstep := hchange.batchStep generation
  rw [hafter] at hstep
  generalize db.batch generation = before at hstep ⊢
  cases hstep with
  | same => exact .inl ⟨after, rfl, hlive, fun _ h => h⟩
  | fresh hprepares hkey => exact .inr ⟨_, _, hprepares, hkey⟩
  | reopened hended =>
    exact .inl ⟨_, rfl, by simp [hended],
      fun batch h => ⟨h.generation, h.fingerprint, h.operationCount, h.ordinals, h.rows⟩⟩
  | moved hmove hopen => exact .inl ⟨_, rfl, by simp [hopen], fun batch h => h.move _ _ _⟩
  | ended hopen =>
    exact .inl ⟨_, rfl, by simp [hopen],
      fun batch h => ⟨h.generation, h.fingerprint, h.operationCount, h.ordinals, h.rows⟩⟩
  | archived => exact absurd rfl hlive

theorem lastPrepared_stores (limits requests) {row}
    (hrow : (journalAfter limits requests).batch generation = some row) (hlive : row.state ≠ .archived) :
    ∃ batch, lastPrepared limits requests generation = some batch ∧ row.Stores batch := by
  induction requests using List.reverseRecOn generalizing row with
  | nil => cases hrow
  | append_singleton requests request ih =>
    cases hperform : perform limits (journalAfter limits requests) request with
    | error refusal =>
      rw [lastPrepared_refused hperform]
      rcases journalAfter_cases limits requests request with hrefused | hok
      · exact ih (hrefused ▸ hrow) hlive
      · rw [hperform] at hok
        cases hok
    | ok next =>
      rw [journalAfter_ok hperform] at hrow
      rw [lastPrepared_committed hperform]
      -- The call prepared this generation, or the batch stores what it stored before.
      cases hmade : (preparedBatch limits (journalAfter limits requests, request)).filter
          fun batch => batch.generation == generation with
      | some batch =>
        obtain ⟨hbatch, hkey⟩ := Option.filter_eq_some_iff.mp hmade
        obtain ⟨stored, hstored, hstores⟩ := stores_of_preparedBatch (sound_after limits requests) hperform hbatch
        rw [beq_iff_eq.mp hkey] at hstored
        obtain rfl := Option.some.inj (hrow.symm.trans hstored)
        exact ⟨batch, rfl, hstores⟩
      | none =>
        rcases (change_of_ok hperform).stores hrow hlive with
          ⟨before, hbefore, hlive, hkeeps⟩ | ⟨batch, archivable, hprepares, hkey⟩
        · obtain ⟨batch, hlast, hstores⟩ := ih hbefore hlive
          exact ⟨batch, hlast, hkeeps batch hstores⟩
        · rw [preparedBatch_of_prepares hperform hprepares] at hmade
          simp [Option.filter, hkey] at hmade

end

def Request.Releases : Request → BatchRow → Prop
  | .releaseArchive generation fingerprint, row | .purgeBatch generation fingerprint, row =>
    row.generation = generation ∧ row.fingerprint = fingerprint
  | .purge generation, row => row.generation = generation
  | _, _ => False

section

variable [Platform] {limits : Limits} {db next : Database} {request : Request} {generation : String} {row : BatchRow}

theorem Change.marker (hchange : Change limits db request next) (hrow : db.batch generation = some row)
    (harchived : row.state = .archived) : next.batch generation = some row ∨ request.Releases row := by
  have hstep := hchange.batchStep generation
  rw [hrow] at hstep
  generalize next.batch generation = after at hstep ⊢
  cases hstep with
  | same => exact .inl rfl
  | fresh hprepares hkey hfresh hold => cases (hold row rfl).1.symm.trans harchived
  | reopened hended => cases hended.symm.trans harchived
  | moved hmove hopen => cases hopen.symm.trans harchived
  | ended hopen => cases hopen.symm.trans harchived
  | archived hgives hlive => exact absurd harchived hlive
  | removed hremoves =>
    refine .inr ?_
    cases request with
    | releaseArchive generation fingerprint => exact ⟨hremoves.1, hremoves.2.1⟩
    | purge generation => exact hremoves
    | purgeBatch generation fingerprint => exact hremoves
    | discard generation => exact absurd harchived hremoves.2
    | delivered batch => cases hremoves.2.1.symm.trans harchived
    | abandonUncertain batch => cases hremoves.2.2.symm.trans harchived
    | _ => exact hremoves.elim

theorem marker_stays {requests later} (hrow : (journalAfter limits requests).batch generation = some row)
    (harchived : row.state = .archived) (hlater : ∀ request ∈ later, ¬request.Releases row) :
    (journalAfter limits (requests ++ later)).batch generation = some row := by
  induction later using List.reverseRecOn with
  | nil => rwa [append_nil]
  | append_singleton later request ih =>
    have hbefore := ih fun other hother => hlater other (mem_append_left _ hother)
    rw [← append_assoc]
    rcases journalAfter_cases limits (requests ++ later) request with hrefused | hok
    · rwa [hrefused]
    · exact ((change_of_ok hok).marker hbefore harchived).resolve_right (hlater request (by simp))

theorem prepareBatch_of_marker (hrow : db.batch generation = some row) (harchived : row.state = .archived)
    (threadId operations archivable entropy) :
    prepareBatch limits db generation threadId operations archivable entropy = .error .archived ∨
      ∃ refusal, build generation threadId operations limits.maxOperations = .error refusal ∧
        prepareBatch limits db generation threadId operations archivable entropy = .error refusal := by
  cases hbuild : build generation threadId operations limits.maxOperations with
  | error refusal => exact .inr ⟨refusal, rfl, by rw [prepareBatch, hbuild]; rfl⟩
  | ok batch =>
    obtain ⟨_, rfl, _⟩ := build_eq_ok hbuild
    refine .inl ?_
    rw [prepareBatch, hbuild, ok_bind, hrow]
    simp only [harchived, if_true]
    rfl

omit [Platform] in
/-- Archiving the current batch of a generation with a reservation needs no room. -/
theorem archive_of_archivable (hsafe : safeIdRe generation = true)
    (hrow : db.batch generation = some row) (harchivable : row.archivable = true) :
    ∃ next, archive db generation row.fingerprint = .ok next := by
  have hcurrent : (db.batch generation).filter (fun item => item.fingerprint == row.fingerprint) =
      some row := by
    rw [hrow]
    exact Option.filter_eq_some_iff.mpr ⟨rfl, beq_self_eq_true _⟩
  have hwork : ∀ work : Except JournalError Database, (∃ next, work = .ok next) →
      ∃ next, (safeId generation >>= fun _ => writing "Action batch could not be archived" work) = .ok next :=
    fun work ⟨next, h⟩ => ⟨next, bind_eq_ok.mpr ⟨(), safeId_eq_ok.mpr hsafe, writing_eq_ok.mpr h⟩⟩
  rw [archive, hcurrent]
  refine hwork _ ?_
  by_cases harchived : row.state = .archived
  · exact ⟨db, if_pos harchived⟩
  · have hchanged : (db.updateBatch generation (fun item => item.fingerprint == row.fingerprint)
        .archived).2 = 1 := by simp [Database.updateBatch, hrow]
    simp only [harchived, if_false, harchivable, Bool.not_true, Bool.false_eq_true]
    exact ⟨_, bind_eq_ok.mpr ⟨(), requireChanged_eq_ok.mpr hchanged, rfl⟩⟩

/-- The tables keep their representation and their capacities in every run. An archive marker
refuses every batch of its generation until it is released or purged, archiving never fails for
capacity, the last handle of an open batch is loaded, and a refused call changes no row. -/
theorem journal_tables_sound (limits : Limits) (requests : List Request) :
    (∀ row ∈ (journalAfter limits requests).batches, row.state ≠ .archived →
      row.operations.map OperationRow.ordinal = List.range row.operationCount ∧
        (row.operations.map OperationRow.interruptId).Nodup ∧
        (row.operations.map OperationRow.operationId).Nodup) ∧
    (∀ row ∈ (journalAfter limits requests).batches, row.state = .archived →
      row.operations = [] ∧ row.archivable = true) ∧
    ((journalAfter limits requests).batches.countP fun row => row.state != .archived) ≤
      limits.maxGenerations ∧
    (journalAfter limits requests).batches.countP BatchRow.archivable ≤ limits.maxArchived ∧
    (∀ row ∈ (journalAfter limits requests).batches, row.state = .archived →
      ∀ later, (∀ request ∈ later, ¬request.Releases row) →
        ∀ threadId operations archivable entropy, ∃ refusal,
          prepareBatch limits (journalAfter limits (requests ++ later)) row.generation threadId
              operations archivable entropy = .error refusal ∧
            (refusal = .archived ∨ build row.generation threadId operations limits.maxOperations = .error refusal)) ∧
    (∀ row ∈ (journalAfter limits requests).batches, row.archivable = true →
      ∃ next, archive (journalAfter limits requests) row.generation row.fingerprint = .ok next) ∧
    (∀ row ∈ (journalAfter limits requests).batches, row.state = .opened →
      ∃ batch rows, lastPrepared limits requests row.generation = some batch ∧
        (journalAfter limits requests).load batch = .ok rows) ∧
    (∀ request refusal, perform limits (journalAfter limits requests) request = .error refusal →
      journalAfter limits (requests ++ [request]) = journalAfter limits requests) := by
  have hsound := sound_after limits requests
  have hbatch : ∀ row ∈ (journalAfter limits requests).batches,
      (journalAfter limits requests).batch row.generation = some row := fun row hrow =>
    find?_key_of_mem hsound.generations hrow
  refine ⟨fun row hrow hlive => ?_, fun row hrow => (hsound.rows row hrow).archived, hsound.live,
    hsound.archivable, fun row hrow harchived later hlater threadId operations archivable entropy => ?_,
    fun row hrow harchivable => ?_, fun row hrow hopen => ?_, fun request refusal hrefused => ?_⟩
  · have happart := (hsound.rows row hrow).apart
    exact ⟨(hsound.rows row hrow).ordinals hlive,
      pairwise_map.mpr (happart.imp fun h => h.1), pairwise_map.mpr (happart.imp fun h => h.2)⟩
  · have hmarker := marker_stays (hbatch row hrow) harchived hlater
    rcases prepareBatch_of_marker hmarker harchived threadId operations archivable entropy with
      hrefused | ⟨refusal, hbuild, hrefused⟩
    · exact ⟨.archived, hrefused, .inl rfl⟩
    · exact ⟨refusal, hrefused, .inr hbuild⟩
  · exact archive_of_archivable (hsound.rows row hrow).safe (hbatch row hrow) harchivable
  · obtain ⟨batch, hlast, hstores⟩ := lastPrepared_stores limits requests (hbatch row hrow) (by simp [hopen])
    exact ⟨batch, _, hlast, load_of_stores (hstores.generation ▸ hbatch row hrow) hstores hopen⟩
  · rcases journalAfter_cases limits requests request with hsame | hok
    · exact hsame
    · rw [hrefused] at hok
      cases hok

end

attribute [local instance] plainPlatform

theorem journal_tables_sound_begun :
    ∃ batch rows,
      lastPrepared sampleLimits [prepareSample, .begin sampleBatch sampleOperation] "g" = some batch ∧
        (journalAfter sampleLimits [prepareSample, .begin sampleBatch sampleOperation]).load batch = .ok rows :=
  (journal_tables_sound sampleLimits [prepareSample, .begin sampleBatch sampleOperation]).2.2.2.2.2.2.1
    begunRow begunRow_mem rfl

end

variable {row : BatchRow} {encoded : String} {value : Value}

variable {execution : Execution} {rows : List OperationRow}

section

variable {limits : Limits} {db next : Database} {request : Request} {batch : Batch}
  {operation : Operation} {generation interruptId : String} {item : OperationRow}

theorem operation_eq_stored (hsound : row.Sound) (hrow : db.batch batch.generation = some row)
    (h : db.operation batch operation = .ok item) : db.stored batch.generation operation.interruptId = some item := by
  obtain ⟨found, hfound, _, _, hitem, hinterrupt⟩ := Database.operation_eq_ok h
  obtain rfl := Option.some.inj (hrow.symm.trans hfound)
  rw [← hinterrupt]
  exact stored_eq_some hsound hrow hitem

theorem operation_of_stored (hsound : row.Sound)
    (hrow : db.batch batch.generation = some row) (hload : db.load batch = .ok rows)
    (hstored : db.stored batch.generation operation.interruptId = some item) :
    db.operation batch operation = .ok item := by
  obtain ⟨_, _, _, _, rfl⟩ := Database.load_eq_ok hload
  obtain ⟨found, hfound, hitem, hinterrupt⟩ := mem_of_stored hstored
  obtain rfl := Option.some.inj (hrow.symm.trans hfound)
  refine bind_eq_ok.mpr ⟨_, hload, ?_⟩
  cases hfind : (db.rows batch.generation).find? fun row => row.interruptId == operation.interruptId with
  | none => exact absurd hinterrupt (find?_key_eq_none hfind ((Database.mem_rows hrow).mpr hitem))
  | some other =>
    obtain ⟨hother, hkey⟩ := find?_key_mem hfind
    have hsame := stored_eq_some hsound hrow ((Database.mem_rows hrow).mp hother)
    rw [hkey, hstored] at hsame
    exact congrArg Except.ok (Option.some.inj hsame).symm

variable [Platform]

/-- A cached result that is read back is the bounded canonical text of the value. -/
theorem canonicalResult_of_decode (h : decode limits (some encoded) = .ok value) :
    canonicalResult value limits.maxResultBytes = .ok encoded := by
  obtain ⟨_, h⟩ := guard_eq_ok.mp h
  split at h
  · cases h
  next parsed _ =>
    split at h
    · cases h
    next text hcanonical =>
      split at h
      next heq => rw [← Except.ok.inj h, hcanonical, heq]
      · cases h

/-- The result of a completed operation is replayed with its members in order. -/
theorem decode_canonicalResult (hdecoded : Decoded value)
    (h : canonicalResult value limits.maxResultBytes = .ok encoded) :
    decode limits (some encoded) = .ok (sorted value) := by
  obtain ⟨hparse, hagain⟩ := parse_canonicalResult hdecoded h
  obtain ⟨_, hsize, rfl⟩ := canonicalResult_eq_ok.mp h
  simp [decode, Nat.not_lt.mpr hsize, hparse, hagain]

/-- What an answer of `begin` says of the row of its operation. -/
theorem begin_answers (hsound : db.Sound limits) (h : begin limits db batch operation = .ok (execution, next)) :
    ∃ item, db.stored batch.generation operation.interruptId = some item ∧ execution.operationId = item.operationId ∧
      ((item.state = .prepared ∧ execution.execute = true) ∨
        ∃ encoded value, item.state = .completed encoded ∧ execution.execute = false ∧
          execution.result = some value ∧ decode limits (some encoded) = .ok value) := by
  obtain ⟨_, _, h⟩ := bind_eq_ok.mp h
  obtain ⟨item, hitem, h⟩ := bind_eq_ok.mp (writing_eq_ok.mp h)
  obtain ⟨row, hrow, _⟩ := Database.operation_eq_ok hitem
  refine ⟨item, operation_eq_stored (hsound.batch hrow) hrow hitem, ?_⟩
  cases hstate : item.state with
  | executing => simp [hstate] at h
  | noEffect => simp [hstate] at h
  | completed encoded =>
    simp only [hstate] at h
    obtain ⟨value, hdecode, h⟩ := bind_eq_ok.mp h
    obtain ⟨rfl, _⟩ := Prod.mk.inj (Except.ok.inj h)
    exact ⟨rfl, .inr ⟨encoded, value, rfl, rfl, rfl, hdecode⟩⟩
  | prepared =>
    simp only [hstate] at h
    obtain ⟨_, _, h⟩ := bind_eq_ok.mp h
    obtain ⟨rfl, _⟩ := Prod.mk.inj (Except.ok.inj h)
    exact ⟨rfl, .inl ⟨rfl, rfl⟩⟩

/-- A loaded handle's completed operation is answered with its result. -/
theorem begin_of_completed (hsound : db.Sound limits)
    (hmember : operation ∈ batch.operations) (hload : db.load batch = .ok rows)
    (hstored : db.stored batch.generation operation.interruptId = some item)
    (hstate : item.state = .completed encoded) (hdecode : decode limits (some encoded) = .ok value) :
    begin limits db batch operation = .ok (⟨false, some value, item.operationId⟩, db) := by
  obtain ⟨row, hrow, _⟩ := Database.load_eq_ok hload
  have hitem := operation_of_stored (hsound.batch hrow) hrow hload hstored
  refine bind_eq_ok.mpr ⟨(), require_eq_ok.mpr hmember, writing_eq_ok.mpr ?_⟩
  refine bind_eq_ok.mpr ⟨item, hitem, ?_⟩
  simp only [hstate]
  exact bind_eq_ok.mpr ⟨value, hdecode, rfl⟩

omit [Platform] in
theorem stored_put_move {source target : OperationState} (hrow : db.batch generation = some row) :
    (db.put (row.move interruptId source target)).stored generation interruptId =
      (db.stored generation interruptId).map (OperationRow.move interruptId source target) := by
  have hkey : row.generation = generation := Database.generation_of_batch hrow
  have hput : (db.put (row.move interruptId source target)).batch generation =
      some (row.move interruptId source target) := Database.batch_put hrow hkey
  rw [stored_of_batch hrow, stored_of_batch hput, find?_move]

theorem begin_executes (hsound : db.Sound limits)
    (h : begin limits db batch operation = .ok (execution, next)) (hexecute : execution.execute = true)
    (hitem : next.stored batch.generation operation.interruptId = some item) : item.state ≠ .prepared := by
  obtain ⟨before, hbefore, _, ⟨hprepared, _⟩ | ⟨encoded, value, _, hreplay, _⟩⟩ := begin_answers hsound h
  · obtain ⟨_, _, h⟩ := bind_eq_ok.mp h
    obtain ⟨found, hfound, h⟩ := bind_eq_ok.mp (writing_eq_ok.mp h)
    obtain ⟨row, hrow, _⟩ := Database.operation_eq_ok hfound
    have hstored := operation_eq_stored (hsound.batch hrow) hrow hfound
    obtain rfl := Option.some.inj (hbefore.symm.trans hstored)
    simp only [hprepared] at h
    obtain ⟨_, _, h⟩ := bind_eq_ok.mp h
    have hnext := (Prod.mk.inj (Except.ok.inj h)).2.symm.trans
      (updateOperation_eq_put hrow .prepared .executing fun _ => rfl)
    rw [hnext, stored_put_move hrow, hbefore, Option.map_some, Option.some.injEq] at hitem
    obtain ⟨_, _, _, hinterrupt⟩ := mem_of_stored hbefore
    rw [← hitem, OperationRow.state_move hinterrupt hprepared]
    simp
  · rw [hexecute] at hreplay
    cases hreplay

theorem complete_stores (hsound : db.Sound limits) (h : complete limits db batch operation value = .ok next) :
    ∃ item encoded, next.stored batch.generation operation.interruptId = some item ∧
      item.state = .completed encoded ∧ canonicalResult value limits.maxResultBytes = .ok encoded := by
  cases hencoded : canonicalResult value limits.maxResultBytes with
  | error refusal => simp [complete, hencoded] at h
  | ok encoded =>
    simp only [complete, hencoded] at h
    obtain ⟨_, _, h⟩ := bind_eq_ok.mp h
    obtain ⟨item, hitem, h⟩ := bind_eq_ok.mp (writing_eq_ok.mp h)
    obtain ⟨row, hrow, _⟩ := Database.operation_eq_ok hitem
    have hstored := operation_eq_stored (hsound.batch hrow) hrow hitem
    split at h
    next =>
      split at h
      next hresult =>
        rw [← Except.ok.inj h]
        refine ⟨item, encoded, hstored, ?_, rfl⟩
        cases hstate : item.state <;> simp_all [OperationState.result]
      · cases h
    next =>
      obtain ⟨hexecuting, h⟩ := guard_eq_ok.mp h
      obtain ⟨_, _, h⟩ := bind_eq_ok.mp h
      have hnext := (Except.ok.inj h).symm.trans
        (updateOperation_eq_put hrow .executing (.completed encoded) fun _ => rfl)
      obtain ⟨_, _, _, hinterrupt⟩ := mem_of_stored hstored
      rw [hnext, stored_put_move hrow, hstored]
      exact ⟨_, encoded, rfl, OperationRow.state_move hinterrupt (not_not.mp hexecuting), rfl⟩

section

/-- The calls that return one operation to prepared: its suspension, or a refused dispatch. -/
def Request.Reprepares : Request → String → String → Prop
  | .suspend batch operation, generation, interruptId
  | .notDispatched batch operation, generation, interruptId =>
    batch.generation = generation ∧ operation.interruptId = interruptId
  | _, _, _ => False

variable {after : OperationRow}

section

variable (h : RowStep limits db request generation interruptId (some item) (some after))

include h

theorem RowStep.operationId : after.operationId = item.operationId := by
  cases h with
  | same => rfl
  | moved hmove hstate => exact OperationRow.operationId_move

theorem RowStep.completed (hstate : item.state = .completed encoded) : after = item := by
  cases h with
  | same => rfl
  | moved hmove hsource =>
    rw [hstate] at hsource
    cases hmove <;> cases hsource

/-- A row returns to prepared only by a suspension or a refused dispatch. -/
theorem RowStep.prepared (hinterrupt : item.interruptId = interruptId) (hbefore : item.state ≠ .prepared)
    (hafter : after.state = .prepared) : request.Reprepares generation interruptId := by
  cases h with
  | same => exact absurd hafter hbefore
  | moved hmove hsource =>
    rw [OperationRow.state_move hinterrupt hsource] at hafter
    cases hmove with
    | suspend batch operation => exact ⟨rfl, rfl⟩
    | notDispatched batch operation => exact ⟨rfl, rfl⟩
    | begin | complete | failWithoutEffect => cases hafter

end

end

section

variable {earlier between : List Request}

/-- The row of an interrupt is there in every state of a part of a run. -/
def Stays (limits : Limits) (earlier between : List Request) (generation interruptId : String) : Prop :=
  ∀ position ≤ between.length,
    ((journalAfter limits (earlier ++ between.take position)).stored generation interruptId).isSome = true

theorem Stays.snoc (h : Stays limits earlier (between ++ [request]) generation interruptId) :
    Stays limits earlier between generation interruptId ∧
      ∃ item, (journalAfter limits (earlier ++ between ++ [request])).stored generation interruptId = some item := by
  constructor
  · intro position hposition
    have hthere := h position (by simp; omega)
    rwa [take_append_of_le_length hposition] at hthere
  · have hlast := h (between ++ [request]).length (Nat.le_refl _)
    rw [take_length, ← append_assoc] at hlast
    exact Option.isSome_iff_exists.mp hlast

theorem Stays.tail (h : Stays limits earlier (request :: between) generation interruptId) :
    Stays limits (earlier ++ [request]) between generation interruptId := by
  intro position hposition
  have hthere := h (position + 1) (by simp; omega)
  rwa [take_succ_cons, append_cons] at hthere

/-- What each call keeps of a row that stays, a whole part of a run keeps. -/
theorem Stays.induction {motive : OperationRow → Prop} (hstays : Stays limits earlier between generation interruptId)
    (hstart : ∀ item, (journalAfter limits earlier).stored generation interruptId = some item →
      motive item) (hstep : ∀ db request item after,
      RowStep limits db request generation interruptId (some item) (some after) → motive item → motive after) :
    ∃ item, (journalAfter limits (earlier ++ between)).stored generation interruptId = some item ∧ motive item := by
  induction between using List.reverseRecOn with
  | nil =>
    obtain ⟨item, hitem⟩ := Option.isSome_iff_exists.mp (hstays 0 (Nat.le_refl _))
    rw [take_zero] at hitem
    rw [append_nil] at hitem ⊢
    exact ⟨item, hitem, hstart item hitem⟩
  | append_singleton between request ih =>
    obtain ⟨hbetween, after, hafter⟩ := hstays.snoc
    obtain ⟨item, hitem, hbefore⟩ := ih hbetween
    have hrow := rowStep_after limits (earlier ++ between) request generation interruptId
    rw [hitem, hafter] at hrow
    rw [← append_assoc]
    exact ⟨after, hafter, hstep _ request item after hrow hbefore⟩

/-- The row of an interrupt that stays and returns to prepared: a committed suspension or refused
dispatch of it stands in between. -/
theorem exists_reprepares (hstays : Stays limits earlier between generation interruptId)
    (hbefore : ∀ item, (journalAfter limits earlier).stored generation interruptId = some item → item.state ≠ .prepared)
    (hafter : ∃ item, (journalAfter limits (earlier ++ between)).stored generation interruptId =
      some item ∧ item.state = .prepared) : ∃ first request rest committed, between = first ++ request :: rest ∧
      request.Reprepares generation interruptId ∧
      perform limits (journalAfter limits (earlier ++ first)) request = .ok committed := by
  induction between using List.reverseRecOn with
  | nil =>
    obtain ⟨item, hitem, hprepared⟩ := hafter
    rw [append_nil] at hitem
    exact absurd hprepared (hbefore item hitem)
  | append_singleton between request ih =>
    obtain ⟨last, hlast, hprepared⟩ := hafter
    obtain ⟨hbetween, _⟩ := hstays.snoc
    rw [← append_assoc] at hlast
    obtain ⟨item, hitem⟩ := Option.isSome_iff_exists.mp (hbetween between.length (Nat.le_refl _))
    rw [take_length] at hitem
    by_cases hearlier : item.state = .prepared
    · obtain ⟨first, found, rest, committed, rfl, hfound, hok⟩ := ih hbetween ⟨item, hitem, hearlier⟩
      exact ⟨first, found, rest ++ [request], committed, by simp, hfound, hok⟩
    · have hrow := rowStep_after limits (earlier ++ between) request generation interruptId
      rw [hitem, hlast] at hrow
      obtain ⟨_, _, _, hinterrupt⟩ := mem_of_stored hitem
      have hreprepares := hrow.prepared hinterrupt hearlier hprepared
      rcases journalAfter_cases limits (earlier ++ between) request with hrefused | hok
      · rw [hrefused, hitem] at hlast
        exact absurd (Option.some.inj hlast ▸ hprepared) hearlier
      · exact ⟨between, request, [], _, rfl, hreprepares, hok⟩

/-- An answer of `begin` that says to execute, for the row of an interrupt. -/
def Executes (limits : Limits) (requests : List Request) (batch : Batch) (operation : Operation)
    (generation interruptId : String) : Prop :=
  batch.generation = generation ∧ operation.interruptId = interruptId ∧
    ∃ execution committed,
      begin limits (journalAfter limits requests) batch operation = .ok (execution, committed) ∧
        execution.execute = true

section

variable (hstays : Stays limits earlier between generation interruptId)

include hstays

theorem Stays.operationId (hitem : (journalAfter limits earlier).stored generation interruptId = some item) :
    ∃ last, (journalAfter limits (earlier ++ between)).stored generation interruptId = some last ∧
      last.operationId = item.operationId := by
  refine hstays.induction (fun first hfirst => ?_) fun db request before after hstep hbefore => ?_
  · rw [Option.some.inj (hitem.symm.trans hfirst)]
  · exact hstep.operationId.trans hbefore

theorem Stays.completed (hitem : (journalAfter limits earlier).stored generation interruptId = some item)
    (hstate : item.state = .completed encoded) :
    (journalAfter limits (earlier ++ between)).stored generation interruptId = some item := by
  obtain ⟨last, hlast, rfl⟩ := hstays.induction (motive := fun row => row = item)
    (fun first hfirst => Option.some.inj (hfirst.symm.trans hitem))
    fun db request before after hstep hbefore => by
      subst hbefore
      exact hstep.completed hstate
  exact hlast

theorem Stays.take (position : Nat) : Stays limits earlier (between.take position) generation interruptId := by
  intro shorter hshorter
  rw [take_take, Nat.min_eq_left (Nat.le_trans hshorter (length_take_le _ _))]
  refine hstays shorter (Nat.le_trans hshorter ?_)
  rw [length_take]
  exact Nat.min_le_right _ _

end

/-- While the row of an operation stays, its id is fixed, a second answer to execute comes only after
a suspension or a refused dispatch of it, and once it is completed each answer replays its result. -/
theorem executed_once_and_replayed (limits : Limits) (earlier between : List Request)
    (generation interruptId : String) (hstays : Stays limits earlier between generation interruptId) :
    (∃ id, ∀ position ≤ between.length, ∃ item,
      (journalAfter limits (earlier ++ between.take position)).stored generation interruptId =
        some item ∧ item.operationId = id) ∧
    (∀ batch operation rest last lastOperation, between = .begin batch operation :: rest →
      Executes limits earlier batch operation generation interruptId →
      Executes limits (earlier ++ between) last lastOperation generation interruptId →
      ∃ first request later committed, rest = first ++ request :: later ∧
        request.Reprepares generation interruptId ∧
        perform limits (journalAfter limits (earlier ++ .begin batch operation :: first)) request = .ok committed) ∧
    (∀ batch operation value rest committed, between = .complete batch operation value :: rest →
      batch.generation = generation → operation.interruptId = interruptId →
      complete limits (journalAfter limits earlier) batch operation value = .ok committed →
      ∀ last lastOperation, last.generation = generation → lastOperation.interruptId = interruptId →
        (∀ execution next,
          begin limits (journalAfter limits (earlier ++ between)) last lastOperation = .ok (execution, next) →
          execution.execute = false ∧ ∃ replayed, execution.result = some replayed ∧
            canonicalResult replayed limits.maxResultBytes = canonicalResult value limits.maxResultBytes ∧
            (Decoded value → replayed = sorted value)) ∧
        (Decoded value → lastOperation ∈ last.operations →
          (∃ rows, (journalAfter limits (earlier ++ between)).load last = .ok rows) →
          ∃ execution next,
            begin limits (journalAfter limits (earlier ++ between)) last lastOperation = .ok (execution, next))) := by
  have hsound := sound_after limits (earlier ++ between)
  refine ⟨?_, ?_, ?_⟩
  · obtain ⟨item, hitem⟩ := Option.isSome_iff_exists.mp (hstays 0 (Nat.zero_le _))
    rw [take_zero, append_nil] at hitem
    exact ⟨item.operationId, fun position _ => (hstays.take position).operationId hitem⟩
  · rintro batch operation rest last lastOperation rfl ⟨rfl, rfl, execution, next, hbegin, hexecute⟩
      ⟨hgeneration, hinterrupt, again, final, hagain, hexecuteAgain⟩
    have hnext : journalAfter limits (earlier ++ [.begin batch operation]) = next :=
      journalAfter_ok (by rw [perform, hbegin]; rfl)
    rw [append_cons] at hagain hsound
    obtain ⟨item, hitem, _, ⟨hprepared, _⟩ | ⟨_, _, _, hreplay, _⟩⟩ := begin_answers hsound hagain
    · rw [hgeneration, hinterrupt] at hitem
      obtain ⟨first, request, later, committed, hrest, hreprepares, hok⟩ :=
        exists_reprepares hstays.tail
          (fun item hitem => begin_executes (sound_after limits earlier) hbegin hexecute (hnext ▸ hitem))
          ⟨item, hitem, hprepared⟩
      rw [← append_cons] at hok
      exact ⟨first, request, later, committed, hrest, hreprepares, hok⟩
    · rw [hexecuteAgain] at hreplay
      cases hreplay
  · rintro batch operation value rest committed rfl rfl rfl hcomplete last lastOperation hgeneration
      hinterrupt
    have hcommitted : journalAfter limits (earlier ++ [.complete batch operation value]) = committed :=
      journalAfter_ok hcomplete
    obtain ⟨item, encoded, hitem, hstate, hencoded⟩ :=
      complete_stores (sound_after limits earlier) hcomplete
    rw [← hcommitted] at hitem
    have hlast := hstays.tail.completed hitem hstate
    rw [append_cons] at hsound ⊢
    constructor
    · intro execution next hbegin
      obtain ⟨found, hfound, _, ⟨hprepared, _⟩ | ⟨text, replayed, htext, hexecute, hresult, hdecode⟩⟩ :=
        begin_answers hsound hbegin
      · rw [hgeneration, hinterrupt] at hfound
        obtain rfl := Option.some.inj (hlast.symm.trans hfound)
        rw [hstate] at hprepared
        cases hprepared
      · rw [hgeneration, hinterrupt] at hfound
        obtain rfl := Option.some.inj (hlast.symm.trans hfound)
        obtain rfl := OperationState.completed.inj (hstate.symm.trans htext)
        refine ⟨hexecute, replayed, hresult, ?_, fun hdecoded => ?_⟩
        · rw [hencoded, canonicalResult_of_decode hdecode]
        · exact Except.ok.inj (hdecode.symm.trans (decode_canonicalResult hdecoded hencoded))
    · rintro hdecoded hmember ⟨rows, hload⟩
      rw [← hgeneration, ← hinterrupt] at hlast
      exact ⟨_, _, begin_of_completed hsound hmember hload hlast hstate (decode_canonicalResult hdecoded hencoded)⟩

end

end

attribute [local instance] plainPlatform

/-- A result with its members out of order. -/
def sampleResult : Value := .object [("b", .bool true), ("a", .null)]

def begunCalls : List Request := [prepareSample, .begin sampleBatch sampleOperation]

def replayedCalls : List Request :=
  [.complete sampleBatch sampleOperation sampleResult, .endBatch sampleBatch, prepareSample]

theorem sampleResult_decoded : Decoded sampleResult := by
  refine .object (by decide) fun member hmember => ?_
  simp only [mem_cons, not_mem_nil, or_false] at hmember
  rcases hmember with rfl | rfl
  · exact .bool true
  · exact .null

theorem replayedCalls_stay : Stays sampleLimits begunCalls replayedCalls "g" "i" := by
  unfold Stays
  decide

theorem executed_once_and_replayed_sample :
    ∃ execution committed,
      begin sampleLimits (journalAfter sampleLimits (begunCalls ++ replayedCalls)) sampleBatch
          sampleOperation = .ok (execution, committed) ∧
        execution.execute = false ∧ execution.result = some (sorted sampleResult) := by
  obtain ⟨_, _, hreplayed⟩ :=
    executed_once_and_replayed sampleLimits begunCalls replayedCalls "g" "i" replayedCalls_stay
  obtain ⟨committed, hcommitted⟩ : ∃ committed, complete sampleLimits
      (journalAfter sampleLimits begunCalls) sampleBatch sampleOperation sampleResult =
        .ok committed := exists_ok (by decide)
  obtain ⟨rows, hload⟩ : ∃ rows, (journalAfter sampleLimits (begunCalls ++ replayedCalls)).load
      sampleBatch = .ok rows := exists_ok (by decide)
  obtain ⟨hanswers, hanswered⟩ :=
    hreplayed _ _ _ _ committed rfl rfl rfl hcommitted sampleBatch sampleOperation rfl rfl
  obtain ⟨execution, next, hbegin⟩ :=
    hanswered sampleResult_decoded mem_cons_self ⟨rows, hload⟩
  obtain ⟨hexecute, replayed, hresult, _, hsorted⟩ := hanswers execution next hbegin
  exact ⟨execution, next, hbegin, hexecute, hsorted sampleResult_decoded ▸ hresult⟩

end ShimpzTeams.Actions
