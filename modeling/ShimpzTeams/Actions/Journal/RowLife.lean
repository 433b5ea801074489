import ShimpzTeams.Actions.Journal.Calls

/-!
# What one call of the journal changes, and the life of one operation row

Every committed call keeps the database, inserts a fresh batch, replaces an ended
one, reopens, ends, archives or removes a batch, or moves one operation of an open
batch to another state. Every change keeps the tables sound and within their
capacities. A row that may be acting stays until a call settles its operation or
gives its batch up.
-/

namespace ShimpzTeams.Actions

open StrictJson Protocol Library List

section

variable {row : BatchRow} {generation fingerprint : String}

section

variable [Platform]

inductive Move (limits : Limits) : Request → String → String → OperationState → OperationState → Prop where
  | begin (batch : Batch) (operation : Operation) :
      Move limits (.begin batch operation) batch.generation operation.interruptId .prepared .executing
  | complete {batch operation result encoded}
      (hencoded : canonicalResult result limits.maxResultBytes = .ok encoded) :
      Move limits (.complete batch operation result) batch.generation operation.interruptId .executing
        (.completed encoded)
  | failWithoutEffect (batch : Batch) (operation : Operation) :
      Move limits (.failWithoutEffect batch operation) batch.generation operation.interruptId .executing
        .noEffect
  | suspend (batch : Batch) (operation : Operation) :
      Move limits (.suspend batch operation) batch.generation operation.interruptId .executing .prepared
  | notDispatched (batch : Batch) (operation : Operation) :
      Move limits (.notDispatched batch operation) batch.generation operation.interruptId .executing
        .prepared

def Request.Removes : Request → BatchRow → Prop
  | .delivered batch, row =>
    row.generation = batch.generation ∧ row.state = .opened ∧ ∀ item ∈ row.operations, item.state ≠ .executing
  | .abandonUncertain batch, row =>
    row.generation = batch.generation ∧ row.fingerprint = batch.fingerprint ∧ row.state = .opened
  | .releaseArchive generation fingerprint, row =>
    row.generation = generation ∧ row.fingerprint = fingerprint ∧ row.state = .archived
  | .discard generation, row => row.generation = generation ∧ row.state ≠ .archived
  | .purge generation, row => row.generation = generation
  | .purgeBatch generation fingerprint, row =>
    row.generation = generation ∧ row.fingerprint = fingerprint
  | _, _ => False

/-- The batch that a call of `prepare_batch` asks for. -/
def Request.Prepares (limits : Limits) (request : Request) (batch : Batch) (archivable : Bool) : Prop :=
  ∃ generation threadId operations entropy,
    request = .prepareBatch generation threadId operations archivable entropy ∧
      build generation threadId operations limits.maxOperations = .ok batch

/-- What a committed call changes. -/
inductive Change (limits : Limits) (db : Database) (request : Request) : Database → Prop where
  | kept : Change limits db request db
  | inserted {batch archivable row} (hprepares : request.Prepares limits batch archivable)
      (hnone : db.batch batch.generation = none)
      (hroom : reserve limits db archivable = .ok ()) (hfresh : row.Fresh batch archivable) :
      Change limits db request (db.add row)
  | replaced {batch archivable old row} (hprepares : request.Prepares limits batch archivable)
      (hold : db.batch batch.generation = some old) (hended : old.state = .ended)
      (hdisjoint : ∀ operation ∈ batch.operations, ∀ item ∈ old.operations, item.interruptId ≠ operation.interruptId)
      (hroom : reserve limits (db.without batch.generation) archivable = .ok ())
      (hfresh : row.Fresh batch archivable) :
      Change limits db request ((db.without batch.generation).add row)
  | reopened {batch row} (hprepares : request.Prepares limits batch row.archivable)
      (hrow : db.batch batch.generation = some row) (hended : row.state = .ended) :
      Change limits db request (db.put { row with state := .opened })
  | moved {generation interruptId source target row}
      (hmove : Move limits request generation interruptId source target)
      (hrow : db.batch generation = some row) (hopen : row.state = .opened) :
      Change limits db request (db.put (row.move interruptId source target))
  | ended {generation : String} {row}
      (hends : (∃ batch, request = .endBatch batch) ∨ ∃ generation, request = .endSettled generation)
      (hrow : db.batch generation = some row) (hopen : row.state = .opened)
      (hsettled : ∀ item ∈ row.operations, item.state ≠ .executing) :
      Change limits db request (db.put { row with state := .ended })
  | archived {generation fingerprint : String} {row}
      (harchives : request = .archive generation fingerprint)
      (hrow : db.batch generation = some row) (hfingerprint : row.fingerprint = fingerprint)
      (hlive : row.state ≠ .archived) (harchivable : row.archivable = true) :
      Change limits db request (db.put { row with state := .archived, operations := [] })
  | removed {generation : String} {row} (hremoves : request.Removes row)
      (hrow : db.batch generation = some row) : Change limits db request (db.without generation)

end

variable {request : Request} {failure : String}

variable {limits : Limits} {db next : Database} {batch : Batch} {operation : Operation}

theorem updateOperation_eq_put {interruptId} (hrow : db.batch generation = some row)
    (source target : OperationState) {change} (hchange : ∀ item, change item = { item with
        state := target, attempts := if target = .executing then item.attempts + 1 else item.attempts }) :
    (db.updateOperation generation interruptId source change).1 = db.put (row.move interruptId source target) := by
  obtain rfl := funext hchange
  simp only [Database.updateOperation, hrow]
  rfl

/-- What a settled operation changes: nothing when it was settled so before. -/
theorem settle_cases {state} (hstate : state ≠ .executing) (h : settle db batch operation state = .ok next) :
    next = db ∨ ∃ row, db.batch batch.generation = some row ∧ row.state = .opened ∧
      next = db.put (row.move operation.interruptId .executing state) := by
  obtain ⟨_, _, h⟩ := bind_eq_ok.mp h
  obtain ⟨item, hitem, h⟩ := bind_eq_ok.mp (writing_eq_ok.mp h)
  obtain ⟨row, hrow, _, hopen, _, _⟩ := Database.operation_eq_ok hitem
  split at h
  next =>
    split at h
    · exact .inl (Except.ok.inj h).symm
    · cases h
  next =>
    obtain ⟨_, h⟩ := guard_eq_ok.mp h
    obtain ⟨_, _, h⟩ := bind_eq_ok.mp h
    exact .inr ⟨row, hrow, hopen, (Except.ok.inj h).symm.trans
      (updateOperation_eq_put hrow .executing state fun item => by rw [if_neg hstate])⟩

theorem reprepare_eq_ok (h : reprepare db batch operation failure = .ok next) :
    ∃ row, db.batch batch.generation = some row ∧ row.state = .opened ∧
      next = db.put (row.move operation.interruptId .executing .prepared) := by
  obtain ⟨_, _, h⟩ := bind_eq_ok.mp h
  obtain ⟨item, hitem, h⟩ := bind_eq_ok.mp (writing_eq_ok.mp h)
  obtain ⟨row, hrow, _, hopen, _, _⟩ := Database.operation_eq_ok hitem
  obtain ⟨_, h⟩ := guard_eq_ok.mp h
  obtain ⟨_, _, h⟩ := bind_eq_ok.mp h
  exact ⟨row, hrow, hopen, (Except.ok.inj h).symm.trans
    (updateOperation_eq_put hrow .executing .prepared fun _ => rfl)⟩

theorem delete_eq_ok {message} (h : delete db batch message = .ok next) :
    ∃ row, db.batch batch.generation = some row ∧ row.fingerprint = batch.fingerprint ∧
      next = db.without batch.generation := by
  obtain ⟨_, hchanged, h⟩ := bind_eq_ok.mp h
  obtain ⟨row, hrow, hfingerprint, hnext⟩ := Database.deleteBatch_one (requireChanged_eq_ok.mp hchanged)
  rw [hnext] at h
  exact ⟨row, hrow, by simpa using hfingerprint, (Except.ok.inj h).symm⟩

theorem endSettledStates_cases {states ended} (h : endSettledStates db generation states = .ok (ended, next)) :
    next = db ∨ OperationState.executing ∉ states ∧ ∃ row, db.batch generation = some row ∧
      row.state = .opened ∧ next = db.put { row with state := .ended } := by
  rw [endSettledStates] at h
  split at h
  · exact .inl (Prod.mk.inj (Except.ok.inj h)).2.symm
  next hstates =>
    obtain ⟨_, hchanged, h⟩ := bind_eq_ok.mp h
    obtain ⟨row, hrow, hopen, hnext⟩ := Database.updateBatch_one (requireChanged_eq_ok.mp hchanged)
    refine .inr ⟨fun hmem => hstates (any_eq_true.mpr ⟨_, hmem, by simp⟩), row, hrow, by simpa using hopen, ?_⟩
    exact (Prod.mk.inj (Except.ok.inj h)).2.symm.trans hnext

theorem reopen_cases (hrow : db.batch batch.generation = some row) (h : reopen db batch row.state = .ok next) :
    (next = db ∨ row.state = .ended ∧ next = db.put { row with state := .opened }) ∧
      ∃ rows, next.load batch = .ok rows := by
  obtain ⟨opened, hopened, h⟩ := bind_eq_ok.mp h
  obtain ⟨rows, hload, h⟩ := bind_eq_ok.mp h
  cases h
  refine ⟨?_, rows, hload⟩
  split at hopened
  next hended =>
    obtain ⟨_, hchanged, hopened⟩ := bind_eq_ok.mp hopened
    obtain ⟨found, hfound, _, hnext⟩ := Database.updateBatch_one (requireChanged_eq_ok.mp hchanged)
    obtain rfl : row = found := Option.some.inj (hrow.symm.trans hfound)
    exact .inr ⟨hended, (Except.ok.inj hopened).symm.trans hnext⟩
  · exact .inl (Except.ok.inj hopened).symm

theorem retireEnded_eq_ok (hrow : db.batch batch.generation = some row) (h : retireEnded db batch = .ok next) :
    row.state = .ended ∧ next = db.without batch.generation ∧ ∀ operation ∈ batch.operations, ∀ item ∈ row.operations,
        item.interruptId ≠ operation.interruptId := by
  obtain ⟨hrepeats, h⟩ := guard_eq_ok.mp h
  obtain ⟨_, hchanged, h⟩ := bind_eq_ok.mp h
  obtain ⟨found, hfound, hended, hnext⟩ := Database.deleteBatch_one (requireChanged_eq_ok.mp hchanged)
  obtain rfl : row = found := Option.some.inj (hrow.symm.trans hfound)
  refine ⟨by simpa using hended, (Except.ok.inj h).symm.trans hnext,
    fun operation hoperation item hitem heq => hrepeats ?_⟩
  refine any_eq_true.mpr ⟨operation, hoperation, ?_⟩
  rw [contains_iff_mem, mem_map]
  exact ⟨item, (Database.mem_rows hrow).mpr hitem, heq⟩

variable [Platform]

theorem begin_change (hok : (begin limits db batch operation).map Prod.snd = .ok next) :
    Change limits db (.begin batch operation) next := by
  obtain ⟨⟨execution, _⟩, h, rfl⟩ := map_eq_ok.mp hok
  obtain ⟨_, _, h⟩ := bind_eq_ok.mp h
  obtain ⟨item, hitem, h⟩ := bind_eq_ok.mp (writing_eq_ok.mp h)
  obtain ⟨row, hrow, _, hopen, _, _⟩ := Database.operation_eq_ok hitem
  cases hstate : item.state with
  | executing => simp [hstate] at h
  | noEffect => simp [hstate] at h
  | completed result =>
    simp only [hstate] at h
    obtain ⟨value, _, h⟩ := bind_eq_ok.mp h
    simp only [Except.ok.injEq, Prod.mk.injEq] at h
    exact h.2 ▸ .kept
  | prepared =>
    simp only [hstate] at h
    obtain ⟨_, _, h⟩ := bind_eq_ok.mp h
    simp only [Except.ok.injEq, Prod.mk.injEq] at h
    have hnext := h.2.symm.trans (updateOperation_eq_put hrow .prepared .executing fun _ => rfl)
    exact hnext ▸ .moved (.begin batch operation) hrow hopen

theorem complete_change {result} (h : complete limits db batch operation result = .ok next) :
    Change limits db (.complete batch operation result) next := by
  cases hencoded : canonicalResult result limits.maxResultBytes with
  | error refusal => simp [complete, hencoded] at h
  | ok encoded =>
    simp only [complete, hencoded] at h
    rcases settle_cases (by simp) h with rfl | ⟨row, hrow, hopen, rfl⟩
    · exact .kept
    · exact .moved (.complete hencoded) hrow hopen

theorem failWithoutEffect_change (h : failWithoutEffect db batch operation = .ok next) :
    Change limits db (.failWithoutEffect batch operation) next := by
  rcases settle_cases (by simp) h with rfl | ⟨row, hrow, hopen, rfl⟩
  · exact .kept
  · exact .moved (.failWithoutEffect batch operation) hrow hopen

theorem delivered_change (h : delivered limits db batch = .ok next) : Change limits db (.delivered batch) next := by
  obtain ⟨held, _, h⟩ := bind_eq_ok.mp (writing_eq_ok.mp h)
  cases held with
  | false => exact Except.ok.inj h ▸ .kept
  | true =>
    obtain ⟨rows, hload, h⟩ := bind_eq_ok.mp h
    obtain ⟨hresults, h⟩ := guard_eq_ok.mp h
    obtain ⟨_, _, h⟩ := bind_eq_ok.mp h
    obtain ⟨row, hrow, _, rfl⟩ := delete_eq_ok h
    obtain ⟨loaded, hloaded, _, hopen, rfl⟩ := Database.load_eq_ok hload
    obtain rfl := Option.some.inj (hrow.symm.trans hloaded)
    refine .removed ⟨Database.generation_of_batch hrow, hopen, fun item hitem hexecuting => ?_⟩ hrow
    refine hresults (any_eq_true.mpr ⟨item, (Database.mem_rows hrow).mpr hitem, ?_⟩)
    rw [hexecuting]
    rfl

theorem abandonUncertain_change (hok : (abandonUncertain db batch).map Prod.snd = .ok next) :
    Change limits db (.abandonUncertain batch) next := by
  obtain ⟨⟨abandoned, _⟩, h, rfl⟩ := map_eq_ok.mp hok
  obtain ⟨held, _, h⟩ := bind_eq_ok.mp (writing_eq_ok.mp h)
  cases held with
  | false => exact (Prod.mk.inj (Except.ok.inj h)).2 ▸ .kept
  | true =>
    obtain ⟨rows, hload, h⟩ := bind_eq_ok.mp h
    split at h
    · exact (Prod.mk.inj (Except.ok.inj h)).2 ▸ .kept
    next =>
      obtain ⟨rest, hdelete, h⟩ := bind_eq_ok.mp h
      obtain ⟨row, hrow, hfingerprint, rfl⟩ := delete_eq_ok hdelete
      obtain ⟨loaded, hloaded, _, hopen, _⟩ := Database.load_eq_ok hload
      obtain rfl := Option.some.inj (hrow.symm.trans hloaded)
      have hremoved : Change limits db (.abandonUncertain batch) (db.without batch.generation) :=
        .removed ⟨Database.generation_of_batch hrow, hfingerprint, hopen⟩ hrow
      exact (Prod.mk.inj (Except.ok.inj h)).2 ▸ hremoved

theorem endBatch_change (hok : (endBatch db batch).map Prod.snd = .ok next) :
    Change limits db (.endBatch batch) next := by
  obtain ⟨⟨ended, _⟩, h, rfl⟩ := map_eq_ok.mp hok
  replace h := writing_eq_ok.mp h
  cases hrow : db.batch batch.generation with
  | none =>
    simp only [hrow] at h
    exact (Prod.mk.inj (Except.ok.inj h)).2 ▸ .kept
  | some row =>
    simp only [hrow] at h
    split at h
    · exact (Prod.mk.inj (Except.ok.inj h)).2 ▸ .kept
    next =>
      obtain ⟨_, h⟩ := guard_eq_ok.mp h
      obtain ⟨rows, hload, h⟩ := bind_eq_ok.mp h
      obtain ⟨_, _, _, _, rfl⟩ := Database.load_eq_ok hload
      rcases endSettledStates_cases h with rfl | ⟨hstates, found, hfound, hopen, rfl⟩
      · exact .kept
      · refine .ended (.inl ⟨batch, rfl⟩) hfound hopen fun item hitem hexecuting => hstates ?_
        exact mem_map.mpr ⟨item, (Database.mem_rows hfound).mpr hitem, hexecuting⟩

theorem endSettled_change (h : endSettled db generation = .ok next) :
    Change limits db (.endSettled generation) next := by
  obtain ⟨_, _, h⟩ := bind_eq_ok.mp h
  replace h := writing_eq_ok.mp h
  split at h
  · exact Except.ok.inj h ▸ .kept
  next =>
    obtain ⟨⟨ended, _⟩, hended, h⟩ := bind_eq_ok.mp h
    cases h
    rcases endSettledStates_cases hended with rfl | ⟨hstates, row, hrow, hopen, rfl⟩
    · exact .kept
    · refine .ended (.inr ⟨generation, rfl⟩) hrow hopen fun item hitem hexecuting => hstates ?_
      simp only [openStates, hrow, hopen, if_true]
      exact mem_map.mpr ⟨item, hitem, hexecuting⟩

theorem archive_change (h : archive db generation fingerprint = .ok next) :
    Change limits db (.archive generation fingerprint) next := by
  obtain ⟨_, _, h⟩ := bind_eq_ok.mp h
  replace h := writing_eq_ok.mp h
  split at h
  · cases h
  next row hfilter =>
    split at h
    · exact Except.ok.inj h ▸ .kept
    next hlive =>
      obtain ⟨harchivable, h⟩ := guard_eq_ok.mp h
      obtain ⟨_, hchanged, h⟩ := bind_eq_ok.mp h
      obtain ⟨found, hfound, _, hnext⟩ := Database.updateBatch_one (requireChanged_eq_ok.mp hchanged)
      rw [hfound, Option.filter_eq_some_iff] at hfilter
      obtain rfl := Option.some.inj hfilter.1
      have hkey : found.generation = generation := Database.generation_of_batch hfound
      have hput : (db.put { found with state := .archived }).batch generation =
          some { found with state := .archived } := Database.batch_put hfound hkey
      simp only [hnext, Database.deleteOperations, hput, Except.ok.injEq] at h
      rw [← h, Database.put_put ?_]
      · exact .archived rfl hfound (by simpa using hfilter.2) hlive (by simpa using harchivable)
      · rfl

theorem releaseArchive_change (h : releaseArchive db generation fingerprint = .ok next) :
    Change limits db (.releaseArchive generation fingerprint) next := by
  obtain ⟨_, _, h⟩ := bind_eq_ok.mp h
  replace h := writing_eq_ok.mp h
  cases hrow : db.batch generation with
  | none =>
    simp only [hrow] at h
    exact Except.ok.inj h ▸ .kept
  | some row =>
    simp only [hrow] at h
    split at h
    next harchived =>
      rcases db.deleteBatch_cases generation fun _ => true with hkept | ⟨found, hfound, _, hnext⟩
      · exact (Except.ok.inj h).symm.trans (congrArg Prod.fst hkept) ▸ .kept
      · obtain rfl : row = found := Option.some.inj (hrow.symm.trans hfound)
        exact (Except.ok.inj h).symm.trans (congrArg Prod.fst hnext) ▸
          .removed ⟨Database.generation_of_batch hrow, harchived⟩ hrow
    · cases h

theorem remove_change {holds} (hremoves : ∀ row, row.generation = generation → holds row = true → request.Removes row)
    (h : remove db failure generation holds = .ok next) : Change limits db request next := by
  obtain ⟨_, _, h⟩ := bind_eq_ok.mp h
  replace h := Except.ok.inj (writing_eq_ok.mp h)
  rcases db.deleteBatch_cases generation holds with hkept | ⟨row, hrow, hholds, hnext⟩
  · exact h.symm.trans (congrArg Prod.fst hkept) ▸ .kept
  · exact h.symm.trans (congrArg Prod.fst hnext) ▸
      .removed (hremoves row (Database.generation_of_batch hrow) hholds) hrow

theorem purgeBatch_change (h : purgeBatch db generation fingerprint = .ok next) :
    Change limits db (.purgeBatch generation fingerprint) next := by
  obtain ⟨_, h⟩ := guard_eq_ok.mp h
  refine remove_change (fun row hgeneration hholds => ?_) h
  exact ⟨hgeneration, by simpa using hholds⟩

omit [Platform] in
theorem BatchRow.Fresh.stored {archivable : Bool} (hfresh : row.Fresh batch archivable) (hnone : db.batch batch.generation = none) :
    ∃ found, (db.add row).batch batch.generation = some found ∧ found.Stores batch := by
  rw [← hfresh.stores.generation] at hnone ⊢
  exact ⟨row, Database.batch_add hnone, hfresh.stores⟩

theorem prepareBatch_change {threadId operations archivable entropy}
    (h : prepareBatch limits db generation threadId operations archivable entropy = .ok (batch, next)) :
    Change limits db (.prepareBatch generation threadId operations archivable entropy) next ∧
      ((∃ row, next.batch batch.generation = some row ∧ row.Stores batch) ∨ ∃ rows, next.load batch = .ok rows) := by
  obtain ⟨built, hbuild, h⟩ := bind_eq_ok.mp h
  obtain ⟨stored, hstored, h⟩ := bind_eq_ok.mp h
  obtain ⟨rfl, rfl⟩ := Prod.mk.inj (Except.ok.inj h)
  obtain ⟨_, _, hoperations, _, hadmitted⟩ := build_eq_ok hbuild
  rw [← hoperations] at hadmitted
  have hprepares : (Request.prepareBatch generation threadId operations archivable entropy).Prepares
      limits built archivable := ⟨_, _, _, _, rfl, hbuild⟩
  replace hstored := writing_eq_ok.mp hstored
  cases hrow : db.batch built.generation with
  | none =>
    simp only [hrow] at hstored
    obtain ⟨_, hroom, hinsert⟩ := bind_eq_ok.mp hstored
    obtain ⟨row, hnone, rfl, hfresh⟩ := insert_eq_ok hadmitted hinsert
    exact ⟨.inserted hprepares hrow hroom hfresh, .inl (hfresh.stored hnone)⟩
  | some row =>
    simp only [hrow] at hstored
    obtain ⟨_, hstored⟩ := guard_eq_ok.mp hstored
    split at hstored
    next =>
      obtain ⟨hreserved, hreopen⟩ := guard_eq_ok.mp hstored
      obtain rfl := not_not.mp hreserved
      obtain ⟨hcases, hload⟩ := reopen_cases hrow hreopen
      refine ⟨?_, .inr hload⟩
      rcases hcases with rfl | ⟨hended, rfl⟩
      · exact .kept
      · exact .reopened hprepares hrow hended
    next =>
      obtain ⟨_, hstored⟩ := guard_eq_ok.mp hstored
      obtain ⟨freed, hfreed, hstored⟩ := bind_eq_ok.mp hstored
      obtain ⟨_, hroom, hinsert⟩ := bind_eq_ok.mp hstored
      obtain ⟨hended, rfl, hdisjoint⟩ := retireEnded_eq_ok hrow hfreed
      obtain ⟨fresh, hnone, rfl, hfresh⟩ := insert_eq_ok hadmitted hinsert
      exact ⟨.replaced hprepares hrow hended hdisjoint hroom hfresh, .inl (hfresh.stored hnone)⟩

/-- Every committed call is one of the changes. -/
theorem change_of_ok (h : perform limits db request = .ok next) : Change limits db request next := by
  cases request with
  | prepareBatch generation threadId operations archivable entropy =>
    obtain ⟨⟨batch, _⟩, hprepare, rfl⟩ := map_eq_ok.mp h
    exact (prepareBatch_change hprepare).1
  | begin batch operation => exact begin_change h
  | complete batch operation result => exact complete_change h
  | failWithoutEffect batch operation => exact failWithoutEffect_change h
  | suspend batch operation =>
    obtain ⟨row, hrow, hopen, rfl⟩ := reprepare_eq_ok h
    exact .moved (.suspend batch operation) hrow hopen
  | notDispatched batch operation =>
    obtain ⟨row, hrow, hopen, rfl⟩ := reprepare_eq_ok h
    exact .moved (.notDispatched batch operation) hrow hopen
  | delivered batch => exact delivered_change h
  | abandonUncertain batch => exact abandonUncertain_change h
  | endBatch batch => exact endBatch_change h
  | endSettled generation => exact endSettled_change h
  | archive generation fingerprint => exact archive_change h
  | releaseArchive generation fingerprint => exact releaseArchive_change h
  | discard generation =>
    exact remove_change (fun row hgeneration hholds => ⟨hgeneration, by simpa using hholds⟩) h
  | purge generation => exact remove_change (fun row hgeneration _ => hgeneration) h
  | purgeBatch generation fingerprint => exact purgeBatch_change h

end

structure BatchRow.Sound (row : BatchRow) : Prop where
  safe : safeIdRe row.generation = true
  ordinals : row.state ≠ .archived → row.operations.map OperationRow.ordinal = List.range row.operationCount
  apart : row.operations.Pairwise OperationRow.Apart
  settled : row.state = .ended → ∀ item ∈ row.operations, item.state ≠ .executing
  archived : row.state = .archived → row.operations = [] ∧ row.archivable = true

structure Database.Sound (limits : Limits) (db : Database) : Prop where
  generations : (db.batches.map BatchRow.generation).Nodup
  rows : ∀ row ∈ db.batches, row.Sound
  live : (db.batches.countP fun row => row.state != .archived) ≤ limits.maxGenerations
  archivable : db.batches.countP BatchRow.archivable ≤ limits.maxArchived

section

variable {limits : Limits} {db next : Database} {generation : String} {row updated : BatchRow}

theorem Database.Sound.batch (h : db.Sound limits) (hrow : db.batch generation = some row) : row.Sound :=
  h.rows row (mem_of_batch hrow)

theorem Database.sound_empty (limits) : emptyDatabase.Sound limits :=
  ⟨.nil, (fun _ hrow => nomatch hrow), Nat.zero_le _, Nat.zero_le _⟩

/-- A batch is replaced by one that is live or archivable only when it was. -/
theorem Database.Sound.put (h : db.Sound limits) (hrow : db.batch generation = some row)
    (hkey : updated.generation = row.generation) (hsound : updated.Sound)
    (hlive : updated.state ≠ .archived → row.state ≠ .archived)
    (harchivable : updated.archivable = true → row.archivable = true) : (db.put updated).Sound limits := by
  have hfind : db.batches.find? (fun item => item.generation == updated.generation) = some row := by
    rw [hkey, generation_of_batch hrow]
    exact hrow
  constructor
  · rw [Database.put, map_key_replaceFirst]
    exact h.generations
  · intro item hitem
    rcases mem_of_mem_replaceFirst hitem with rfl | hitem
    · exact hsound
    · exact h.rows item hitem
  · refine Nat.le_trans (countP_replaceFirst_le hfind ?_) h.live
    simpa using hlive
  · exact Nat.le_trans (countP_replaceFirst_le hfind harchivable) h.archivable

theorem Database.Sound.without (h : db.Sound limits) (generation) : (db.without generation).Sound limits := by
  constructor
  · exact h.generations.sublist (filter_sublist.map _)
  · exact fun item hitem => h.rows item (mem_filter.mp hitem).1
  · exact Nat.le_trans (filter_sublist.countP_le) h.live
  · exact Nat.le_trans (filter_sublist.countP_le) h.archivable

theorem Database.Sound.add (h : db.Sound limits) (hnone : db.batch row.generation = none)
    (hroom : reserve limits db row.archivable = .ok ()) (hsound : row.Sound) : (db.add row).Sound limits := by
  obtain ⟨hlive, hroom⟩ := guard_eq_ok.mp hroom
  obtain ⟨harchivable, _⟩ := guard_eq_ok.mp hroom
  constructor
  · rw [Database.add, map_append, map_singleton]
    refine nodup_append.mpr ⟨h.generations, nodup_singleton _, ?_⟩
    intro other hother key hkey heq
    obtain ⟨item, hitem, rfl⟩ := mem_map.mp hother
    obtain rfl := mem_singleton.mp hkey
    exact find?_key_eq_none hnone hitem heq
  · intro item hitem
    rcases mem_append.mp hitem with hitem | hitem
    · exact h.rows item hitem
    · exact mem_singleton.mp hitem ▸ hsound
  · rw [Database.add, countP_append, countP_singleton]
    have hone : (if (row.state != .archived) = true then 1 else 0) ≤ 1 := by split <;> omega
    omega
  · rw [Database.add, countP_append, countP_singleton]
    have hkept := h.archivable
    split
    next hrow =>
      simp only [hrow, Bool.true_and, decide_eq_true_eq] at harchivable
      omega
    · omega

variable {archivable : Bool}

theorem BatchRow.Fresh.sound {batch} (h : row.Fresh batch archivable)
    (hsafe : safeIdRe batch.generation = true) : row.Sound := by
  constructor
  · rw [h.stores.generation]
    exact hsafe
  · exact fun _ => h.stores.ordinals
  · exact h.apart
  · intro hended
    rw [h.opened] at hended
    cases hended
  · intro harchived
    rw [h.opened] at harchived
    cases harchived

theorem BatchRow.Sound.move (h : row.Sound) (hopen : row.state = .opened) (interruptId source target) :
    (row.move interruptId source target).Sound := by
  constructor
  · exact h.safe
  · intro hlive
    rw [BatchRow.move, map_map]
    refine (map_congr_left fun item _ => ?_).trans (h.ordinals hlive)
    exact OperationRow.ordinal_move
  · refine pairwise_map.mpr (h.apart.imp fun {left right} hapart => ?_)
    exact ⟨by simpa using hapart.1, by simpa using hapart.2⟩
  · intro hended
    cases hopen.symm.trans hended
  · intro harchived
    cases hopen.symm.trans harchived

variable [Platform] {request : Request}

theorem Request.Prepares.safe {batch}
    (h : request.Prepares limits batch archivable) : safeIdRe batch.generation = true := by
  obtain ⟨generation, threadId, operations, entropy, _, hbuild⟩ := h
  obtain ⟨hsafe, hgeneration, _⟩ := build_eq_ok hbuild
  rw [hgeneration]
  exact hsafe

/-- Every change keeps the invariant. -/
theorem Change.sound (hchange : Change limits db request next) (h : db.Sound limits) : next.Sound limits := by
  cases hchange with
  | kept => exact h
  | inserted hprepares hnone hroom hfresh =>
    rw [← hfresh.stores.generation] at hnone
    rw [← hfresh.archivable] at hroom
    exact h.add hnone hroom (hfresh.sound hprepares.safe)
  | replaced hprepares hold hended hdisjoint hroom hfresh =>
    refine (h.without _).add ?_ ?_ (hfresh.sound hprepares.safe)
    · rw [hfresh.stores.generation]
      exact Database.batch_without
    · rw [hfresh.archivable]
      exact hroom
  | reopened hprepares hrow hended =>
    have hsound := h.batch hrow
    refine h.put hrow rfl ⟨hsound.safe, fun _ => hsound.ordinals (by simp [hended]), hsound.apart,
      (fun hstate => nomatch hstate), fun hstate => nomatch hstate⟩ ?_ id
    simp [hended]
  | moved hmove hrow hopen =>
    exact h.put hrow rfl ((h.batch hrow).move hopen _ _ _) id id
  | ended hends hrow hopen hsettled =>
    have hsound := h.batch hrow
    refine h.put hrow rfl ⟨hsound.safe, fun _ => hsound.ordinals (by simp [hopen]), hsound.apart,
      fun _ => hsettled, fun hstate => nomatch hstate⟩ ?_ id
    simp [hopen]
  | archived harchives hrow hfingerprint hstate harchivable =>
    refine h.put hrow rfl ⟨(h.batch hrow).safe, fun hstate => absurd rfl hstate, .nil,
      (fun hstate => nomatch hstate), fun _ => ⟨rfl, harchivable⟩⟩ ?_ id
    exact fun hstate => absurd rfl hstate
  | removed hremoves hrow => exact h.without _

theorem sound_after (limits requests) : (journalAfter limits requests).Sound limits :=
  run_invariant (fun _ _ _ h hok => (change_of_ok hok).sound h) (Database.sound_empty limits) requests

/-- The last call of a run is refused, or the database is what it committed. -/
theorem journalAfter_cases (limits requests request) :
    journalAfter limits (requests ++ [request]) = journalAfter limits requests ∨
      perform limits (journalAfter limits requests) request = .ok (journalAfter limits (requests ++ [request])) := by
  rw [journalAfter, journalAfter, runFrom_append, runFrom_cons, runFrom_nil]
  exact step_cases (perform limits) _ request

theorem journalAfter_ok {requests} (h : perform limits (journalAfter limits requests) request = .ok next) :
    journalAfter limits (requests ++ [request]) = next := by
  rw [journalAfter, runFrom_append, runFrom_cons, runFrom_nil]
  exact step_ok h

end

section

variable {row : BatchRow} {batch : Batch} {archivable : Bool}

def Database.stored (db : Database) (generation interruptId : String) : Option OperationRow :=
  (db.batch generation).bind fun row => row.operations.find? fun item => item.interruptId == interruptId

/-- The calls that give a batch up, whatever its operations may have done. -/
def Request.GivesUp : Request → BatchRow → Prop
  | .abandonUncertain batch, row =>
    row.generation = batch.generation ∧ row.fingerprint = batch.fingerprint
  | .archive generation fingerprint, row | .purgeBatch generation fingerprint, row =>
    row.generation = generation ∧ row.fingerprint = fingerprint
  | .discard generation, row | .purge generation, row => row.generation = generation
  | _, _ => False

variable {target source : OperationState}

variable {limits : Limits} {db next : Database} {request : Request} {generation interruptId : String}

theorem stored_of_batch (h : db.batch generation = some row) :
    db.stored generation interruptId = row.operations.find? fun item => item.interruptId == interruptId := by
  rw [Database.stored, h]
  rfl

theorem find?_move {moved} :
    ((row.move moved source target).operations.find? fun item => item.interruptId == interruptId) =
      (row.operations.find? fun item => item.interruptId == interruptId).map
        (OperationRow.move moved source target) := by
  rw [BatchRow.move, List.find?_map]
  congr 2
  funext item
  simp

/-- A replaced batch and the one that replaces it share no interrupt. -/
theorem find?_fresh_eq_none {old : BatchRow} {item} (hfresh : row.Fresh batch archivable)
    (hdisjoint : ∀ operation ∈ batch.operations, ∀ item ∈ old.operations, item.interruptId ≠ operation.interruptId)
    (hitem : (old.operations.find? fun item => item.interruptId == interruptId) = some item) :
    (row.operations.find? fun item => item.interruptId == interruptId) = none := by
  obtain ⟨hmem, rfl⟩ := find?_key_mem hitem
  refine List.find?_eq_none.mpr fun other hother => ?_
  obtain ⟨operation, hoperation, hmatches⟩ := exists_right_of_mem hfresh.stores.rows hother
  rw [hmatches.interruptId]
  simpa using (hdisjoint operation hoperation item hmem).symm

theorem state_of_find?_fresh {item} (hfresh : row.Fresh batch archivable)
    (hitem : (row.operations.find? fun item => item.interruptId == interruptId) = some item) : item.state = .prepared :=
  hfresh.prepared item (find?_key_mem hitem).1

theorem Request.Removes.givesUp (h : request.Removes row) (hsound : row.Sound)
    (hexecuting : ∃ item ∈ row.operations, item.state = .executing) : request.GivesUp row := by
  obtain ⟨item, hitem, hstate⟩ := hexecuting
  cases request with
  | delivered batch => exact absurd hstate (h.2.2 item hitem)
  | abandonUncertain batch => exact ⟨h.1, h.2.1⟩
  | releaseArchive generation fingerprint =>
    rw [(hsound.archived h.2.2).1] at hitem
    cases hitem
  | discard generation => exact h.1
  | purge generation => exact h
  | purgeBatch generation fingerprint => exact h
  | _ => exact h.elim

variable [Platform]

inductive BatchStep (limits : Limits) (request : Request) (generation : String) :
    Option BatchRow → Option BatchRow → Prop where
  | same (row : Option BatchRow) : BatchStep limits request generation row row
  | fresh {batch archivable row old}
      (hprepares : request.Prepares limits batch archivable) (hkey : batch.generation = generation)
      (hfresh : row.Fresh batch archivable)
      (hold : ∀ earlier ∈ old, earlier.state = .ended ∧ ∀ operation ∈ batch.operations,
        ∀ item ∈ earlier.operations, item.interruptId ≠ operation.interruptId) :
      BatchStep limits request generation old (some row)
  | reopened {row : BatchRow} (hended : row.state = .ended) :
      BatchStep limits request generation (some row) (some { row with state := .opened })
  | moved {interruptId : String} {source target row}
      (hmove : Move limits request generation interruptId source target) (hopen : row.state = .opened) :
      BatchStep limits request generation (some row) (some (row.move interruptId source target))
  | ended {row : BatchRow} (hopen : row.state = .opened) :
      BatchStep limits request generation (some row) (some { row with state := .ended })
  | archived {row : BatchRow} (hgives : request.GivesUp row) (hlive : row.state ≠ .archived) :
      BatchStep limits request generation (some row)
        (some { row with state := .archived, operations := [] })
  | removed {row : BatchRow} (hremoves : request.Removes row) :
      BatchStep limits request generation (some row) none

theorem batchStep_put {updated changed} (hrow : db.batch changed = some row)
    (hkey : updated.generation = row.generation)
    (hstep : changed = generation → BatchStep limits request generation (some row) (some updated)) :
    BatchStep limits request generation (db.batch generation) ((db.put updated).batch generation) := by
  have hchanged : updated.generation = changed := hkey.trans (Database.generation_of_batch hrow)
  by_cases hgeneration : changed = generation
  · subst hgeneration
    rw [hrow, Database.batch_put hrow hchanged]
    exact hstep rfl
  · rw [Database.batch_put_ne (hchanged ▸ hgeneration)]
    exact .same _

theorem Change.batchStep (hchange : Change limits db request next) (generation) :
    BatchStep limits request generation (db.batch generation) (next.batch generation) := by
  cases hchange with
  | kept => exact .same _
  | @inserted batch archivable row hprepares hnone hroom hfresh =>
    rw [← hfresh.stores.generation] at hnone
    by_cases hgeneration : row.generation = generation
    · subst hgeneration
      rw [hnone, Database.batch_add hnone]
      exact .fresh hprepares hfresh.stores.generation.symm hfresh fun earlier hnone => nomatch hnone
    · rw [Database.batch_add_ne hgeneration]
      exact .same _
  | @replaced batch archivable old row hprepares hold hended hdisjoint hroom hfresh =>
    rw [← hfresh.stores.generation] at hold ⊢
    by_cases hgeneration : row.generation = generation
    · subst hgeneration
      rw [hold, Database.batch_add Database.batch_without]
      refine .fresh hprepares hfresh.stores.generation.symm hfresh fun earlier hearlier => ?_
      cases hearlier
      exact ⟨hended, hdisjoint⟩
    · rw [Database.batch_add_ne hgeneration, Database.batch_without_ne hgeneration]
      exact .same _
  | reopened hprepares hrow hended => exact batchStep_put hrow rfl fun _ => .reopened hended
  | moved hmove hrow hopen =>
    refine batchStep_put hrow rfl fun hgeneration => ?_
    subst hgeneration
    exact .moved hmove hopen
  | ended hends hrow hopen hsettled => exact batchStep_put hrow rfl fun _ => .ended hopen
  | archived harchives hrow hfingerprint hlive harchivable =>
    refine batchStep_put hrow rfl fun _ => .archived ?_ hlive
    subst harchives
    exact ⟨Database.generation_of_batch hrow, hfingerprint⟩
  | @removed removed row hremoves hrow =>
    by_cases hgeneration : removed = generation
    · subst hgeneration
      rw [hrow, Database.batch_without]
      exact .removed hremoves
    · rw [Database.batch_without_ne hgeneration]
      exact .same _

inductive RowStep (limits : Limits) (db : Database) (request : Request)
    (generation interruptId : String) : Option OperationRow → Option OperationRow → Prop where
  | same (item : Option OperationRow) : RowStep limits db request generation interruptId item item
  | added {item} (hprepared : item.state = .prepared) :
      RowStep limits db request generation interruptId none (some item)
  | moved {item source target}
      (hmove : Move limits request generation interruptId source target) (hstate : item.state = source) :
      RowStep limits db request generation interruptId (some item)
        (some (item.move interruptId source target))
  | removed {item row} (hrow : db.batch generation = some row)
      (hgives : item.state = .executing → request.GivesUp row) :
      RowStep limits db request generation interruptId (some item) none

theorem rowStep_fresh (hfresh : row.Fresh batch archivable) : RowStep limits db request generation interruptId none
      (row.operations.find? fun item => item.interruptId == interruptId) := by
  cases hitem : row.operations.find? fun item => item.interruptId == interruptId with
  | none => exact .same none
  | some item => exact .added (state_of_find?_fresh hfresh hitem)

theorem rowStep_removed (hrow : db.batch generation = some row)
    (hgives : (∃ item ∈ row.operations, item.state = .executing) → request.GivesUp row) :
    RowStep limits db request generation interruptId
      (row.operations.find? fun item => item.interruptId == interruptId) none := by
  cases hitem : row.operations.find? fun item => item.interruptId == interruptId with
  | none => exact .same none
  | some item => exact .removed hrow fun hstate => hgives ⟨item, (find?_key_mem hitem).1, hstate⟩

theorem rowStep_move {moved} (hmove : Move limits request generation moved source target) :
    RowStep limits db request generation interruptId (row.operations.find? fun item => item.interruptId == interruptId)
      ((row.move moved source target).operations.find? fun item => item.interruptId == interruptId) := by
  rw [find?_move]
  cases hitem : row.operations.find? fun item => item.interruptId == interruptId with
  | none => exact .same none
  | some item =>
    have hinterrupt : item.interruptId = interruptId := (find?_key_mem hitem).2
    rw [Option.map_some]
    by_cases hchosen : item.interruptId = moved ∧ item.state = source
    · obtain rfl : interruptId = moved := hinterrupt.symm.trans hchosen.1
      exact .moved hmove hchosen.2
    · rw [OperationRow.move_of_ne hchosen]
      exact .same _

/-- One committed call in the life of a row. -/
theorem Change.rowStep (hchange : Change limits db request next) (h : db.Sound limits) (generation interruptId) :
    RowStep limits db request generation interruptId (db.stored generation interruptId)
      (next.stored generation interruptId) := by
  have hstep := hchange.batchStep generation
  rw [Database.stored, Database.stored]
  generalize hrow : db.batch generation = before at hstep ⊢
  generalize next.batch generation = after at hstep ⊢
  cases hstep with
  | same => exact .same _
  | fresh hprepares hkey hfresh hold =>
    cases before with
    | none => exact rowStep_fresh hfresh
    | some old =>
      obtain ⟨hended, hdisjoint⟩ := hold old rfl
      simp only [Option.bind_some]
      cases hitem : old.operations.find? fun item => item.interruptId == interruptId with
      | none => exact rowStep_fresh hfresh
      | some item =>
        rw [find?_fresh_eq_none hfresh hdisjoint hitem]
        refine .removed hrow fun hexecuting => ?_
        exact absurd hexecuting ((h.batch hrow).settled hended item (find?_key_mem hitem).1)
  | reopened | ended => exact .same _
  | moved hmove => exact rowStep_move hmove
  | archived hgives => exact rowStep_removed hrow fun _ => hgives
  | removed hremoves => exact rowStep_removed hrow (hremoves.givesUp (h.batch hrow))

/-- One call of a run, committed or refused, in the life of a row. -/
theorem rowStep_after (limits requests request generation interruptId) :
    RowStep limits (journalAfter limits requests) request generation interruptId
      ((journalAfter limits requests).stored generation interruptId)
      ((journalAfter limits (requests ++ [request])).stored generation interruptId) := by
  rcases journalAfter_cases limits requests request with hrefused | hok
  · rw [hrefused]
    exact .same _
  · exact (change_of_ok hok).rowStep (sound_after limits requests) generation interruptId

end

def Request.Settles : Request → String → String → Prop
  | .complete batch operation _, generation, interruptId
  | .failWithoutEffect batch operation, generation, interruptId
  | .suspend batch operation, generation, interruptId
  | .notDispatched batch operation, generation, interruptId =>
    batch.generation = generation ∧ operation.interruptId = interruptId
  | _, _, _ => False

variable {item : OperationRow}

section

variable [Platform] {limits : Limits} {db next : Database} {request : Request} {generation interruptId : String}

omit [Platform] in
theorem stored_eq_some {row} (hsound : row.Sound) (hrow : db.batch generation = some row)
    (hitem : item ∈ row.operations) : db.stored generation item.interruptId = some item := by
  rw [stored_of_batch hrow]
  refine find?_key_of_mem ?_ hitem
  exact pairwise_map.mpr (hsound.apart.imp fun hapart => hapart.1)

omit [Platform] in
theorem mem_of_stored (h : db.stored generation interruptId = some item) :
    ∃ row, db.batch generation = some row ∧ item ∈ row.operations ∧ item.interruptId = interruptId := by
  obtain ⟨row, hrow, hitem⟩ := Option.bind_eq_some_iff.mp h
  exact ⟨row, hrow, find?_key_mem hitem⟩

theorem RowStep.executing {after}
    (h : RowStep limits db request generation interruptId (some item) after) (hstate : item.state = .executing) :
    after = some item ∨ request.Settles generation interruptId ∨
      ∃ row, db.batch generation = some row ∧ request.GivesUp row := by
  cases h with
  | same => exact .inl rfl
  | removed hrow hgives => exact .inr (.inr ⟨_, hrow, hgives hstate⟩)
  | moved hmove hsource =>
    cases hmove with
    | begin batch operation => cases hstate.symm.trans hsource
    | complete hencoded => exact .inr (.inl ⟨rfl, rfl⟩)
    | failWithoutEffect batch operation => exact .inr (.inl ⟨rfl, rfl⟩)
    | suspend batch operation => exact .inr (.inl ⟨rfl, rfl⟩)
    | notDispatched batch operation => exact .inr (.inl ⟨rfl, rfl⟩)

/-- A row that may be acting stays in its batch when a call neither settles it nor gives the batch
up. -/
theorem executing_stays (requests request) {row} (hrow : row ∈ (journalAfter limits requests).batches)
    (hitem : item ∈ row.operations) (hstate : item.state = .executing) :
    (∃ kept ∈ (journalAfter limits (requests ++ [request])).batches,
        kept.generation = row.generation ∧ item ∈ kept.operations) ∨
      request.Settles row.generation item.interruptId ∨ request.GivesUp row := by
  have hsound := sound_after limits requests
  have hbatch : (journalAfter limits requests).batch row.generation = some row :=
    find?_key_of_mem hsound.generations hrow
  have hstep := rowStep_after limits requests request row.generation item.interruptId
  rw [stored_eq_some (hsound.rows row hrow) hbatch hitem] at hstep
  rcases hstep.executing hstate with hkept | hsettles | ⟨found, hfound, hgives⟩
  · obtain ⟨kept, hkept, hmem, _⟩ := mem_of_stored hkept
    exact .inl ⟨kept, Database.mem_of_batch hkept, Database.generation_of_batch hkept, hmem⟩
  · exact .inr (.inl hsettles)
  · obtain rfl := Option.some.inj (hbatch.symm.trans hfound)
    exact .inr (.inr hgives)

/-- No ended or archived batch holds an operation that may be acting. Such an operation stays as it
is unless a call settles it or gives its batch up: ending, delivering or replacing a batch does
neither. -/
theorem uncertain_evidence_kept (limits : Limits) (requests : List Request) :
    (∀ row ∈ (journalAfter limits requests).batches, row.state = .ended ∨ row.state = .archived →
      ∀ item ∈ row.operations, item.state ≠ .executing) ∧
    ∀ row ∈ (journalAfter limits requests).batches, ∀ item ∈ row.operations,
      item.state = .executing →
      (∀ request, (∃ kept ∈ (journalAfter limits (requests ++ [request])).batches,
          kept.generation = row.generation ∧ item ∈ kept.operations) ∨
        request.Settles row.generation item.interruptId ∨ request.GivesUp row) ∧
      ∀ batch generation threadId operations archivable entropy,
        ∀ request ∈ [Request.endBatch batch, .endSettled generation, .delivered batch,
            .prepareBatch generation threadId operations archivable entropy],
          ∃ kept ∈ (journalAfter limits (requests ++ [request])).batches,
            kept.generation = row.generation ∧ item ∈ kept.operations := by
  have hsound := sound_after limits requests
  refine ⟨fun row hrow hstate item hitem => ?_, fun row hrow item hitem hstate => ⟨fun request =>
    executing_stays requests request hrow hitem hstate, ?_⟩⟩
  · rcases hstate with hended | harchived
    · exact (hsound.rows row hrow).settled hended item hitem
    · rw [((hsound.rows row hrow).archived harchived).1] at hitem
      cases hitem
  · intro batch generation threadId operations archivable entropy request hrequest
    rcases executing_stays requests request hrow hitem hstate with hkept | hsettles | hgives
    · exact hkept
    · simp only [mem_cons, not_mem_nil, or_false] at hrequest
      rcases hrequest with rfl | rfl | rfl | rfl <;> exact hsettles.elim
    · simp only [mem_cons, not_mem_nil, or_false] at hrequest
      rcases hrequest with rfl | rfl | rfl | rfl <;> exact hgives.elim

end

/-- A platform with a constant hash, and trivial text tables, zones and doubles. -/
@[reducible]
def plainPlatform : Platform where
  Zone := Unit
  utc := ()
  zoneGet := fun _ => none
  civilAt := fun _ _ => none
  instantOf := fun _ _ _ _ => none
  sha256 := fun _ => Vector.replicate 32 0
  category := fun _ => "Ll"
  isNfc := fun _ => true
  lower := id
  toUppercase := fun character => [character]
  formatExp := fun _ => "0e0"
  parseFloat := fun _ => some 0
  searchStops := fun _ => false

attribute [local instance] plainPlatform

/-- Room for two batches of two operations. -/
def sampleLimits : Limits := ⟨2, 2, 64, 1⟩

def sampleOperation : Operation :=
  ⟨"i", "0000000000000000000000000000000000000000000000000000000000000000", none⟩

def prepareSample : Request :=
  .prepareBatch "g" "t" [sampleOperation] true fun _ => some (Vector.replicate 16 7)

def sampleBatch : Batch :=
  ⟨"g", sha256Hex (canonical (batchIdentity "g" "t" [sampleOperation])), [sampleOperation]⟩

def begunRow : BatchRow :=
  ⟨"g", sampleBatch.fingerprint, 1, .opened, true,
    [⟨0, "i", sampleOperation.fingerprint, "07070707-0707-4707-8707-070707070707", 1, .executing⟩]⟩

theorem begunRow_mem : begunRow ∈
    (journalAfter sampleLimits [prepareSample, .begin sampleBatch sampleOperation]).batches := by
  decide

theorem uncertain_evidence_kept_ended :
    ∃ item ∈ begunRow.operations, item.state = .executing ∧
      ∃ kept ∈ (journalAfter sampleLimits
          ([prepareSample, .begin sampleBatch sampleOperation] ++ [.endBatch sampleBatch])).batches,
        kept.generation = "g" ∧ item ∈ kept.operations :=
  ⟨_, mem_cons_self, rfl,
    ((uncertain_evidence_kept sampleLimits _).2 begunRow begunRow_mem _ mem_cons_self rfl).2
      sampleBatch "g" "t" [] true (fun _ => none) _ mem_cons_self⟩

end ShimpzTeams.Actions
