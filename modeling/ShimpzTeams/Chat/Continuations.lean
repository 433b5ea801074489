import Mathlib.Data.List.Sort
import Mathlib.Data.String.Basic

/-!
# Paused turns over a restart

A restart takes the expired continuations out of the store, ends the Action batches of
the human ones, and restores each live one as a challenge with the lifetime it has left.
The store loses what expired at two instants, and before any batch is ended, so a paused
turn is accounted for only under a condition.
-/

namespace ShimpzTeams.Chat.Continuations

open List

inductive Kind where
  | human
  | integrations
  deriving DecidableEq

structure StoredContinuation where
  teamId : String
  kind : Kind
  challengeId : String
  expiresAt : Int
  deriving DecidableEq

inductive Effect where
  /-- The state file now holds these records. -/
  | written (records : List StoredContinuation)
  /-- The Action batch of a paused turn is prepared and terminated. -/
  | ended (stored : StoredContinuation)
  /-- A live challenge, with its remaining seconds. -/
  | restored (stored : StoredContinuation) (remaining : Int)
  deriving DecidableEq

def Effect.disk (records : List StoredContinuation) : Effect → List StoredContinuation
  | .written later => later
  | .ended _ | .restored _ _ => records

/-- The records the state file holds after these effects. -/
def after (records : List StoredContinuation) (effects : List Effect) : List StoredContinuation :=
  effects.foldl Effect.disk records

def expiring (now : Int) (drained : Bool) (records : List StoredContinuation) : List Effect × List StoredContinuation :=
  let gone := records.filter fun stored => stored.expiresAt ≤ now
  let live := records.filter fun stored => now < stored.expiresAt
  (if gone.isEmpty then [] else [.written live],
    (if drained then gone else live).insertionSort fun left right => left.teamId ≤ right.teamId)

/-- A start of Team: the clock at the two reads of the store and as each challenge is restored. A
crash, or a call that fails, ends it once it has made so many effects. -/
structure Start where
  drainedAt : Int
  activeAt : Int
  restoredAt : StoredContinuation → Int
  drained_le : drainedAt ≤ activeAt
  active_le : ∀ stored, activeAt ≤ restoredAt stored
  cut : Nat

def restoreOne (start : Start) (stored : StoredContinuation) : List Effect :=
  let remaining := stored.expiresAt - start.restoredAt stored
  if remaining ≤ 0 then [] else [.restored stored remaining]

/-- The effects of a restart in which every call answers. -/
def restore (start : Start) (records : List StoredContinuation) : List Effect :=
  let expired := expiring start.drainedAt true records
  let active := expiring start.activeAt false (after records expired.1)
  expired.1 ++ active.1 ++ (expired.2.filter fun stored => stored.kind == .human).map .ended ++
    active.2.flatMap (restoreOne start)

def Start.made (start : Start) (records : List StoredContinuation) : List Effect :=
  (restore start records).take start.cut

def Start.Succeeds (start : Start) (records : List StoredContinuation) : Prop :=
  start.made records = restore start records

/-- Every effect of one start after another. -/
def history : List StoredContinuation → List Start → List Effect
  | _, [] => []
  | records, start :: rest => start.made records ++ history (after records (start.made records)) rest

variable {stored : StoredContinuation} {effects : List Effect} {records : List StoredContinuation}
  {start : Start} {now : Int} {drained : Bool}

theorem Start.reads_before (start : Start) (h : start.restoredAt stored < stored.expiresAt) :
    start.drainedAt < stored.expiresAt ∧ start.activeAt < stored.expiresAt := by
  have hactive := lt_of_le_of_lt (start.active_le stored) h
  exact ⟨lt_of_le_of_lt start.drained_le hactive, hactive⟩

theorem mem_after (h : stored ∈ records) (hwritten : ∀ kept, .written kept ∈ effects → stored ∈ kept) :
    stored ∈ after records effects := by
  induction effects generalizing records with
  | nil => exact h
  | cons effect rest ih =>
    have hfirst : stored ∈ effect.disk records := by
      cases effect with
      | written kept => exact hwritten kept mem_cons_self
      | ended | restored => exact h
    exact ih hfirst fun kept hkept => hwritten kept (.tail _ hkept)

/-- A read of the store keeps every live record in it. -/
theorem mem_of_written {kept} (h : .written kept ∈ (expiring now drained records).1)
    (hstored : stored ∈ records) (hlive : now < stored.expiresAt) : stored ∈ kept := by
  have hkept : (∃ gone ∈ records, gone.expiresAt ≤ now) ∧
      kept = records.filter fun stored => now < stored.expiresAt := by
    simpa [expiring] using h
  simpa [hkept.2, hstored] using hlive

theorem mem_after_expiring (hstored : stored ∈ records) (hlive : now < stored.expiresAt) :
    stored ∈ after records (expiring now drained records).1 :=
  mem_after hstored fun _ h => mem_of_written h hstored hlive

theorem mem_expiring : stored ∈ (expiring now drained records).2 ↔
    stored ∈ records ∧ if drained then stored.expiresAt ≤ now else now < stored.expiresAt := by
  cases drained <;> simp [expiring]

theorem not_written_restoreOne {kept} : .written kept ∉ restoreOne start stored := by
  simp only [restoreOne]
  split <;> simp

/-- A live continuation stays in the store, wherever the start is cut. -/
theorem mem_after_made (hstored : stored ∈ records) (hlive : start.restoredAt stored < stored.expiresAt) :
    stored ∈ after records (start.made records) := by
  obtain ⟨hdrained, hactive⟩ := start.reads_before hlive
  refine mem_after hstored fun kept hkept => ?_
  have hmem := mem_of_mem_take hkept
  simp only [restore, mem_append, mem_map, mem_flatMap, not_written_restoreOne, reduceCtorEq,
    and_false, exists_false, or_false] at hmem
  rcases hmem with hfirst | hsecond
  · exact mem_of_written hfirst hstored hdrained
  · exact mem_of_written hsecond (mem_after_expiring hstored hdrained) hactive

/-- A start that succeeds ends the batch of a human continuation it finds expired, and restores a
live one with the lifetime it has left. -/
theorem Start.Succeeds.accounts (h : start.Succeeds records) (hstored : stored ∈ records) :
    (stored.kind = .human → stored.expiresAt ≤ start.drainedAt → .ended stored ∈ start.made records) ∧
      (start.restoredAt stored < stored.expiresAt →
        .restored stored (stored.expiresAt - start.restoredAt stored) ∈ start.made records) := by
  rw [h, restore]
  refine ⟨fun hhuman hexpired => ?_, fun hlive => ?_⟩
  · simp [mem_expiring, hstored, hhuman, hexpired]
  · obtain ⟨hdrained, hactive⟩ := start.reads_before hlive
    refine mem_append_right _ (mem_flatMap.mpr ⟨stored, ?_, by simp [restoreOne, hlive]⟩)
    exact mem_expiring.mpr ⟨mem_after_expiring hstored hdrained, hactive⟩

/-- In no start does the clock pass the continuation's expiry after the first read of the store, and
a start that finds it expired is not cut. -/
def Undisturbed (stored : StoredContinuation) : List StoredContinuation → List Start → Prop
  | _, [] => True
  | records, start :: rest =>
    (start.restoredAt stored < stored.expiresAt ∨
      stored.expiresAt ≤ start.drainedAt ∧ start.Succeeds records) ∧
      Undisturbed stored (after records (start.made records)) rest

/-- A human pause that expires at the tenth second. -/
def paused : StoredContinuation := ⟨"team", .human, "challenge", 10⟩

/-- A start that reads the clock now, and so many seconds later. -/
def started (now later cut : Nat) : Start :=
  ⟨now, now + later, fun _ => now + later, by omega, fun _ => le_rfl, cut⟩

end ShimpzTeams.Chat.Continuations
