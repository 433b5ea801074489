import ShimpzTeams.Protocol.Value

/-!
# The downloads of a finished Browser task, and their fates

The runtime makes a listing of what easi.run answers; the ingest reads it strictly and
brings each complete file within the bounds to the Team's files. Every other entry gets
a closed reason. The ingest is followed call by call: its result is what the fates of
the files, by their positions, account for.
-/

namespace ShimpzTeams.Browser

open StrictJson Protocol

def listed (download : Value) : Option (String × Int) :=
  match download.get "name", download.get "size" with
  | some (.string name), some (.number (.int size)) => some (name, size)
  | _, _ => none

def listingEntry (file : String × Int) : Value := objectOf [("name", text file.1), ("size", int file.2)]

/-- The loop over the downloads: the entries so far, and how many could not be named. -/
def sortDownloads (entries : List Value) (skipped : Int) : List Value → List Value × Int
  | [] => (entries, skipped)
  | download :: rest =>
    match listed download with
    | some file => sortDownloads (entries ++ [listingEntry file]) skipped rest
    | none => sortDownloads entries (skipped + 1) rest

/-- The task's downloads in the shape its ingest reads, made of a tool's structured answer; none when the turn
was stopped or the answer has no downloads. -/
def files (stopped : Bool) (answer : Value) : Option Value :=
  if stopped then none
  else match answer.get "downloads" with
    | some (.array downloads) =>
      let (entries, skipped) := sortDownloads [] 0 downloads
      some (objectOf [("files", .array entries), ("refused", .array []), ("skipped", int skipped)])
    | _ => none

def maxFiles : Nat := 8

def maxFileBytes : Nat := 25 * 1024 * 1024

def maxListed : Nat := 64

/-- A size: an integer that is not negative. -/
def sizeOf : Option Value → Option Nat
  | some (.number (.int size)) => if 0 ≤ size then some size.toNat else none
  | _ => none

def nameOf : Option Value → Option String
  | some (.string name) => if name.isEmpty then none else some name
  | _ => none

def exactly (entry : Value) (keys : List String) : Bool :=
  match entry with
  | .object members => members.length == keys.length && keys.all fun key => (entry.get key).isSome
  | _ => false

def namedEntry (entry : Value) : Option (String × Nat) :=
  if !exactly entry ["name", "size"] then none
  else do
    let name ← nameOf (entry.get "name")
    let size ← sizeOf (entry.get "size")
    some (name, size)

def refusedReason : Option Value → Option String
  | some (.string reason) =>
    if reason == "incomplete" then some "incomplete"
    else if reason == "over-limit" then some "over-limit"
    else none
  | _ => none

def refusedEntry (entry : Value) : Option (String × String) :=
  if !exactly entry ["name", "reason", "size"] then none
  else do
    let reason ← refusedReason (entry.get "reason")
    let name ← nameOf (entry.get "name")
    some (name, reason)

/-- A listing's files with their sizes, its refused entries with their reasons, and its unnamed count. -/
structure Entries where
  named : List (String × Nat)
  refused : List (String × String)
  skipped : Nat

/-- Reads a listing; none when it broke its closed shape. -/
def entries (listing : Value) : Option Entries :=
  match listing.get "files", listing.get "refused" with
  | some (.array files), some (.array refused) => do
      let skipped ← sizeOf (listing.get "skipped")
      if maxListed < files.length || maxListed < refused.length then none
      else do
        let named ← files.mapM namedEntry
        let reasons ← refused.mapM refusedEntry
        some ⟨named, reasons, skipped⟩
  | _, _ => none

inductive PutRefused where
  | stopped
  | readLost
  | quotaExceeded
  | nameRefused
  | unavailable
  deriving DecidableEq, Repr

/-- The four fields of a stored file's reference the task keeps. -/
def reference (stored : Value) : Value :=
  objectOf (["id", "name", "media_type", "size"].map fun key => (key, (stored.get key).getD .null))

/-- The kept files' references, the named files not kept with their reasons, and how many were unnamed. -/
structure Ingested where
  kept : List Value := []
  lost : List (String × String) := []
  skipped : Nat := 0

structure Stop where
  before : Nat → Bool
  after : Nat → Bool

/-- What the places that downloads come from and go to answer for each file: its bytes, or none when they could
not be read exactly; the reference of the stored file, or why it was not stored. -/
structure Answers where
  read : Nat → String → Nat → Option (List UInt8)
  put : Nat → String → List UInt8 → Except PutRefused Value

def browserLost (files : List (String × Nat)) : List (String × String) :=
  files.map fun file => (file.1, "browser-lost")

def Ingested.lose (ingested : Ingested) (losses : List (String × String)) : Ingested :=
  { ingested with lost := ingested.lost ++ losses }

def Ingested.keep (ingested : Ingested) (stored : Value) : Ingested :=
  { ingested with kept := ingested.kept ++ [reference stored] }

def ingestFrom (sink : Answers) (stop : Stop) (index : Nat) (ingested : Ingested) : List (String × Nat) → Ingested
  | [] => ingested
  | (name, size) :: rest =>
    if stop.before index then ingested
    else if maxFiles ≤ index || maxFileBytes < size then
      ingestFrom sink stop (index + 1) (ingested.lose [(name, "over-limit")]) rest
    else if size == 0 then ingestFrom sink stop (index + 1) (ingested.lose [(name, "empty")]) rest
    else match sink.read index name size with
      | none => ingested.lose (browserLost ((name, size) :: rest))
      | some data =>
        if stop.after index then ingested
        else match sink.put index name data with
          | .ok stored => ingestFrom sink stop (index + 1) (ingested.keep stored) rest
          | .error .stopped => ingested
          | .error .readLost => ingested.lose (browserLost ((name, size) :: rest))
          | .error .quotaExceeded =>
            ingestFrom sink stop (index + 1) (ingested.lose [(name, "quota-exceeded")]) rest
          | .error .nameRefused =>
            ingestFrom sink stop (index + 1) (ingested.lose [(name, "name-refused")]) rest
          | .error .unavailable =>
            ingestFrom sink stop (index + 1) (ingested.lose [(name, "store-unavailable")]) rest

/-- Brings a listing's files to the Team; none when the listing broke its shape. -/
def ingest (listing : Value) (sink : Answers) (stop : Stop) : Option Ingested := do
  let entries ← entries listing
  some (ingestFrom sink stop 0 { lost := entries.refused, skipped := entries.skipped } entries.named)

open List

/-- What became of a listed file. -/
inductive Fate where
  | kept (stored : Value)
  | lost (reason : String)

/-- What the ingest asks of the sink. -/
inductive Call where
  | read (index : Nat) (name : String) (size : Nat)
  | put (index : Nat) (name : String) (data : List UInt8)

/-- A read that failed, or a put after the task's time. -/
def Call.failed (sink : Answers) : Call → Prop
  | .read index name size => sink.read index name size = none
  | .put index name data => sink.put index name data = .error .readLost

def Fate.reference : Fate → Option Value
  | .kept stored => some (Browser.reference stored)
  | .lost _ => none

def losses (named : List (String × Nat)) (fates : List Fate) : List (String × String) :=
  (named.zip fates).filterMap fun entry =>
    match entry.2 with
    | .kept _ => none
    | .lost reason => some (entry.1.1, reason)

def allLost (named : List (String × Nat)) : List Fate := named.map fun _ => .lost "browser-lost"

/-- How the loop goes on after a file: it ends, every file from this one on is lost, or this one has its fate. -/
inductive Turn where
  | stopped
  | browserLost
  | fate (fate : Fate)

def afterPut : Except PutRefused Value → Turn
  | .ok stored => .fate (.kept stored)
  | .error .stopped => .stopped
  | .error .readLost => .browserLost
  | .error .quotaExceeded => .fate (.lost "quota-exceeded")
  | .error .nameRefused => .fate (.lost "name-refused")
  | .error .unavailable => .fate (.lost "store-unavailable")

/-- One file of the loop of `ingest`: what it asks of the sink, and how it goes on. -/
def turnOf (sink : Answers) (stop : Stop) (index : Nat) (name : String) (size : Nat) : List Call × Turn :=
  if stop.before index then ([], .stopped)
  else if maxFiles ≤ index || maxFileBytes < size then ([], .fate (.lost "over-limit"))
  else if size == 0 then ([], .fate (.lost "empty"))
  else match sink.read index name size with
    | none => ([.read index name size], .browserLost)
    | some data =>
      if stop.after index then ([.read index name size], .stopped)
      else ([.read index name size, .put index name data], afterPut (sink.put index name data))

/-- The loop's calls in order, and the fates of the files it came to. -/
def handled (sink : Answers) (stop : Stop) (index : Nat) : List (String × Nat) → List Call × List Fate
  | [] => ([], [])
  | (name, size) :: rest =>
    let (calls, turn) := turnOf sink stop index name size
    match turn with
    | .stopped => (calls, [])
    | .browserLost => (calls, allLost ((name, size) :: rest))
    | .fate fate =>
      let later := handled sink stop (index + 1) rest
      (calls ++ later.1, fate :: later.2)

def Ingested.account (ingested : Ingested) (named : List (String × Nat)) (fates : List Fate) : Ingested :=
  ⟨ingested.kept ++ fates.filterMap Fate.reference, ingested.lost ++ losses named fates, ingested.skipped⟩

def lossReasons : List String :=
  ["over-limit", "empty", "quota-exceeded", "name-refused", "store-unavailable"]

/-- No Stop, seen by the loop or by the sink. -/
structure Unstopped (sink : Answers) (stop : Stop) : Prop where
  before : ∀ index, stop.before index = false
  after : ∀ index, stop.after index = false
  put : ∀ index name data, sink.put index name data ≠ .error .stopped

variable {sink : Answers} {stop : Stop} {index : Nat} {name : String} {size : Nat}
  {rest : List (String × Nat)}

/-- The loop does after each file what its turn says. -/
theorem ingestFrom_cons (before name size rest) :
    ingestFrom sink stop index before ((name, size) :: rest) =
      match (turnOf sink stop index name size).2 with
      | .stopped => before
      | .browserLost => before.lose (browserLost ((name, size) :: rest))
      | .fate fate => ingestFrom sink stop (index + 1) (before.account [(name, size)] [fate]) rest := by
  have hlost (reason : String) : before.account [(name, size)] [.lost reason] = before.lose [(name, reason)] := by
    simp [Ingested.account, Ingested.lose, Fate.reference, losses]
  have hkept (stored : Value) : before.account [(name, size)] [.kept stored] = before.keep stored := by
    simp [Ingested.account, Ingested.keep, Fate.reference, losses]
  rw [ingestFrom, turnOf]
  split_ifs
  · rfl
  · exact congrArg (ingestFrom sink stop _ · rest) (hlost _).symm
  · exact congrArg (ingestFrom sink stop _ · rest) (hlost _).symm
  · cases sink.read index name size <;> rfl
  cases sink.read index name size with
  | none => rfl
  | some data =>
    dsimp only
    cases sink.put index name data with
    | ok stored => exact congrArg (ingestFrom sink stop _ · rest) (hkept stored).symm
    | error refusal =>
      cases refusal with
      | stopped | readLost => rfl
      | quotaExceeded | nameRefused | unavailable =>
        exact congrArg (ingestFrom sink stop _ · rest) (hlost _).symm

/-- Why the loop gave a file its own fate: a closed reason, or it was read and stored within the bounds. -/
inductive Fated (sink : Answers) (index : Nat) (name : String) (size : Nat) : Fate → Prop where
  | lost {reason} (hreason : reason ∈ lossReasons) : Fated sink index name size (.lost reason)
  | kept {data stored} (hindex : index < maxFiles) (hfilled : 0 < size)
      (hwithin : size ≤ maxFileBytes) (hread : sink.read index name size = some data)
      (hput : sink.put index name data = .ok stored) : Fated sink index name size (.kept stored)

/-- What one turn of the loop keeps to. -/
structure Orderly (sink : Answers) (stop : Stop) (index : Nat) (name : String) (size : Nat) (calls : List Call)
    (turn : Turn) : Prop where
  last : ∀ call ∈ calls.dropLast, ¬call.failed sink
  stopped : turn = .stopped → ¬Unstopped sink stop
  calls : ∀ fate, turn = .fate fate → ∀ call ∈ calls, ¬call.failed sink
  fate : ∀ fate, turn = .fate fate → Fated sink index name size fate

theorem orderly_turnOf (sink stop index name size) :
    Orderly sink stop index name size (turnOf sink stop index name size).1 (turnOf sink stop index name size).2 := by
  unfold turnOf
  split_ifs with hbefore hlimit hempty hafter
  · exact ⟨by simp, fun _ hnone => absurd hbefore (by simp [hnone.before index]), nofun, nofun⟩
  · exact ⟨by simp, nofun, fun _ _ => by simp, by rintro _ ⟨rfl⟩; exact .lost (by decide)⟩
  · exact ⟨by simp, nofun, fun _ _ => by simp, by rintro _ ⟨rfl⟩; exact .lost (by decide)⟩
  · have hstopped : ¬Unstopped sink stop := fun hnone => absurd hafter (by simp [hnone.after index])
    cases sink.read index name size with
    | none => exact ⟨by simp, nofun, nofun, nofun⟩
    | some data => exact ⟨by simp, fun _ => hstopped, nofun, nofun⟩
  cases hread : sink.read index name size with
  | none => exact ⟨by simp, nofun, nofun, nofun⟩
  | some data =>
    have hdata : ¬(Call.read index name size).failed sink := by simp [Call.failed, hread]
    simp only [Bool.or_eq_true, decide_eq_true_eq, not_or, Nat.not_le, Nat.not_lt] at hlimit
    have hfilled : 0 < size := Nat.pos_of_ne_zero (by simpa using hempty)
    dsimp only
    cases hput : sink.put index name data with
    | ok stored =>
      refine ⟨forall_mem_singleton.mpr hdata, nofun, fun _ _ => ?_, ?_⟩
      · exact forall_mem_cons.mpr ⟨hdata, forall_mem_singleton.mpr (by simp [Call.failed, hput])⟩
      · rintro _ ⟨rfl⟩
        exact .kept hlimit.1 hfilled hlimit.2 hread hput
    | error refusal =>
      have hfails : refusal ≠ .readLost → ¬(Call.put index name data).failed sink := by
        simp [Call.failed, hput]
      refine ⟨forall_mem_singleton.mpr hdata, ?_, ?_, ?_⟩
      · intro hstopped hnone
        refine hnone.put index name data ?_
        cases refusal <;> simp_all [afterPut]
      · intro fate hfate
        refine forall_mem_cons.mpr ⟨hdata, forall_mem_singleton.mpr (hfails ?_)⟩
        rintro rfl
        cases hfate
      · intro fate hfate
        cases refusal <;> cases hfate <;> exact .lost (by decide)

/-- How the loop accounts for the files from an index on: a fate for each of the first ones, for all of them
without a Stop, and no call after one that failed. -/
structure Accounts (sink : Answers) (stop : Stop) (index : Nat) (named : List (String × Nat))
    (run : List Call × List Fate) : Prop where
  within : run.2.length ≤ named.length
  full : Unstopped sink stop → run.2.length = named.length
  few : (run.2.filterMap Fate.reference).length ≤ maxFiles - index
  last : ∀ call ∈ run.1.dropLast, ¬call.failed sink
  fates : ∀ fate ∈ run.2, fate = .lost "browser-lost" ∨ ∃ index name size, Fated sink index name size fate

theorem references_allLost (named) : (allLost named).filterMap Fate.reference = [] := by
  simp [allLost, Fate.reference]

theorem losses_allLost (named) : losses named (allLost named) = browserLost named := by
  induction named with
  | nil => rfl
  | cons file rest ih => exact congrArg ((file.1, "browser-lost") :: ·) ih

theorem mem_losses {named fates loss}
    (h : loss ∈ losses named fates) : loss.1 ∈ named.map Prod.fst ∧ .lost loss.2 ∈ fates := by
  obtain ⟨⟨file, fate⟩, hentry, hloss⟩ := mem_filterMap.mp h
  obtain ⟨hfile, hfate⟩ := of_mem_zip hentry
  cases fate with
  | kept => cases hloss
  | lost reason =>
    cases hloss
    exact ⟨mem_map_of_mem hfile, hfate⟩

theorem names_losses {named fates} (hlength : fates.length = named.length)
    (hlost : ∀ fate ∈ fates, fate.reference = none) : (losses named fates).map Prod.fst = named.map Prod.fst := by
  induction named generalizing fates with
  | nil => rfl
  | cons file rest ih =>
    cases fates with
    | nil => cases hlength
    | cons fate later =>
      obtain ⟨hfate, hlater⟩ := forall_mem_cons.mp hlost
      cases fate with
      | kept stored => cases hfate
      | lost reason => exact congrArg (file.1 :: ·) (ih (Nat.succ.inj hlength) hlater)

theorem Accounts.next {calls fate run} (h : Accounts sink stop (index + 1) rest run)
    (hcalls : ∀ call ∈ calls, ¬call.failed sink) (hfate : Fated sink index name size fate) :
    Accounts sink stop index ((name, size) :: rest) (calls ++ run.1, fate :: run.2) where
  within := Nat.succ_le_succ h.within
  full := fun hnone => congrArg (· + 1) (h.full hnone)
  few := by
    have hfew := h.few
    cases hfate with
    | lost => exact hfew.trans (by omega)
    | kept hindex =>
      change (run.2.filterMap Fate.reference).length + 1 ≤ _
      omega
  last := by
    intro call hcall
    have hrest : call ∈ calls ∨ call ∈ run.1.dropLast := by
      cases hlater : run.1 with
      | nil => exact .inl (dropLast_subset _ (by simpa [hlater] using hcall))
      | cons first later => simpa [hlater, dropLast_append] using hcall
    exact hrest.elim (hcalls call) (h.last call)
  fates := forall_mem_cons.mpr ⟨.inr ⟨index, name, size, hfate⟩, h.fates⟩

theorem handled_accounts (sink stop index named) : Accounts sink stop index named (handled sink stop index named) := by
  induction named generalizing index with
  | nil => exact ⟨Nat.le_refl _, fun _ => rfl, Nat.zero_le _, by simp [handled], by simp [handled]⟩
  | cons file rest ih =>
    obtain ⟨name, size⟩ := file
    have horderly := orderly_turnOf sink stop index name size
    unfold handled
    generalize turnOf sink stop index name size = turn at horderly ⊢
    obtain ⟨calls, _ | _ | fate⟩ := turn
    · exact ⟨Nat.zero_le _, fun hnone => absurd hnone (horderly.stopped rfl), Nat.zero_le _, horderly.last, by simp⟩
    · refine ⟨(length_map _).le, fun _ => length_map _, ?_, horderly.last, forall_mem_map.mpr fun _ _ => .inl rfl⟩
      rw [references_allLost]
      exact Nat.zero_le _
    · exact (ih (index + 1)).next (horderly.calls fate rfl) (horderly.fate fate rfl)

/-- A fate is of the whole rest of the listing, or of one file alone. -/
theorem forall_handled (property : Fate → Prop) (hlost : property (.lost "browser-lost"))
    (hfated : ∀ index name size fate, Fated sink index name size fate → property fate) (stop) (index : Nat)
    (named : List (String × Nat)) : ∀ fate ∈ (handled sink stop index named).2, property fate := by
  intro fate hfate
  rcases (handled_accounts sink stop index named).fates fate hfate with rfl | ⟨index, name, size, hone⟩
  · exact hlost
  · exact hfated index name size fate hone

/-- The ingest's result is what the fates account for. -/
theorem ingestFrom_eq_account (sink stop index before named) :
    ingestFrom sink stop index before named = before.account named (handled sink stop index named).2 := by
  induction named generalizing index before with
  | nil => simp [ingestFrom, Ingested.account, handled, losses]
  | cons file rest ih =>
    obtain ⟨name, size⟩ := file
    rw [ingestFrom_cons]
    unfold handled
    rcases turnOf sink stop index name size with ⟨calls, _ | _ | fate⟩
    · simp [Ingested.account, losses]
    · simp only [Ingested.account, references_allLost, losses_allLost, append_nil]
      rfl
    · dsimp only
      rw [ih]
      cases fate <;> simp [Ingested.account, Fate.reference, losses, filterMap_cons]

end ShimpzTeams.Browser
