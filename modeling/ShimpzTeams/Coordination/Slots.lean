import Mathlib.Data.Multiset.Bind
import ShimpzTeams.Library.Table
import Mathlib.Algebra.Order.BigOperators.Group.Multiset
import Mathlib.Algebra.Order.Group.Nat

/-!
# Every Team's one execution slot

A Team runs at most one execution at a time. Each operation on the executions is
a few sections under one guard, with the slot's own lock taken and released
between them. A slot's lock is one of its Team for as long as anything references
it, because only locks that nothing references are forgotten. So a Team has one lock
at a time, its lock one holder, and a finished drain holds every slot there was.
-/

namespace ShimpzTeams.Coordination

open Library

inductive ExecutionKind where
  | chat
  | routine (routineId : String)

def ExecutionKind.routineId : ExecutionKind → Option String
  | .chat => none
  | .routine routineId => some routineId

/-- Why an execution was not admitted. -/
inductive Refusal where
  | chatActive
  | routineActive
  | spaceResetting
  | spaceBusy

/-- A person's demand for a Team whose slot a Routine held. -/
inductive Demand where
  | waiting
  | since (instant : Nat)

structure Active where
  token : String
  routine : Option String
  cancelled : Bool

structure State where
  closed : Bool := false
  slots : Table String Nat := ∅
  active : Table String Active := ∅
  demand : Table String Demand := ∅

namespace State

variable (state : State) (teamId : String)

def chatExecutions : Nat := (state.active.entries.filter fun entry => entry.2.routine.isNone).length

def slot (referenced : Nat → Bool) (next : Nat) : State × Nat :=
  let slots := intern (state.slots.retain fun _ slot => referenced slot) next teamId
  ({ state with slots := slots.1 }, slots.2)

/-- The section of `admit` that follows its lock: refuses, or registers the execution. -/
def admission (limit : Nat) (kind : ExecutionKind) (token : String) : Except Refusal State :=
  if state.closed then .error .spaceResetting
  else
    let registered := state.active.insert teamId ⟨token, kind.routineId, false⟩
    match kind with
    | .chat =>
      if limit ≤ state.chatExecutions then .error .spaceBusy
      else .ok { state with active := registered, demand := state.demand.erase teamId }
    | .routine _ => .ok { state with active := registered }

def refuseHeld (kind : ExecutionKind) : State × Refusal :=
  if ((state.active.lookup teamId).bind Active.routine).isNone then (state, .chatActive)
  else
    match kind with
    | .chat => ({ state with demand := state.demand.insert teamId .waiting }, .routineActive)
    | .routine _ => (state, .routineActive)

/-- Cancels the registered execution and answers its token, a Routine's unless it is spared. -/
def cancel (spareRoutine : Bool) : State × Option String :=
  match state.active.lookup teamId with
  | none => (state, none)
  | some active =>
    if spareRoutine && active.routine.isSome then (state, none)
    else
      ({ state with active := state.active.insert teamId { active with cancelled := true } }, some active.token)

/-- Commits an execution unless it was cancelled or already committed; only then is `before` run. -/
def commit {ε α : Type} (token : String) (before : Except ε α) : State × Option (Except ε α) :=
  match state.active.lookup teamId with
  | none => (state, none)
  | some current =>
    if current.token != token || current.cancelled then (state, none)
    else
      match before with
      | .ok _ => ({ state with active := state.active.erase teamId }, some before)
      | .error _ => (state, some before)

/-- What a dropped execution leaves, before its slot is released. -/
def dropped (token : String) (isRoutine : Bool) (now : Nat) : State :=
  let active :=
    if (state.active.lookup teamId).any fun active => active.token == token then state.active.erase teamId
    else state.active
  let demand :=
    if isRoutine && (state.demand.lookup teamId).isSome then state.demand.insert teamId (.since now)
    else state.demand
  { state with active := active, demand := demand }

/-- Closes admission: the Teams to cancel, and every slot that exists. -/
def drain : State × List String × List (String × Nat) :=
  ({ state with closed := true }, state.active.keys, state.slots.entries.map fun entry => (entry.1, entry.2))

end State

/-- Where an operation stands between its sections, or a guard that it returned. -/
inductive Task where
  /-- `admit` before it tries the slot's lock. -/
  | asking (teamId : String) (kind : ExecutionKind) (token : String) (slot : Nat)
  /-- `admit` whose slot was held. -/
  | refused (teamId : String) (kind : ExecutionKind)
  /-- `admit` with the slot's lock. -/
  | locked (teamId : String) (kind : ExecutionKind) (token : String) (slot : Nat)
  | execution (teamId token : String) (isRoutine : Bool) (slot : Nat)
  /-- A lock about to be released. -/
  | releasing (teamId : String) (slot : Nat)
  /-- `exclusive` waiting for the slot. -/
  | waiting (teamId : String) (slot : Nat)
  /-- A Team's slot held by its destruction. -/
  | exclusive (teamId : String) (slot : Nat)
  /-- `drain` with the Teams left to cancel, the slots left to take and those taken. -/
  | draining (running : List String) (slots held : List (String × Nat))
  /-- The guard of a finished drain. -/
  | drained (held : List (String × Nat))
  /-- A drain's guard that is being dropped. -/
  | reopening (held : List (String × Nat))

namespace Task

def refs : Task → Multiset (String × Nat)
  | .refused _ _ => 0
  | .draining _ slots held => slots + held
  | .drained held | .reopening held => held
  | .asking teamId _ _ slot | .locked teamId _ _ slot | .execution teamId _ _ slot
  | .releasing teamId slot | .waiting teamId slot | .exclusive teamId slot => {(teamId, slot)}

def held : Task → Multiset (String × Nat)
  | .asking _ _ _ _ | .refused _ _ | .waiting _ _ => 0
  | .draining _ _ held | .drained held | .reopening held => held
  | .locked teamId _ _ slot | .execution teamId _ _ slot | .releasing teamId slot
  | .exclusive teamId slot => {(teamId, slot)}

def token : Task → Multiset String
  | .asking _ _ token _ | .locked _ _ token _ | .execution _ token _ _ => {token}
  | _ => 0

/-- Whether it is a drain, from its first section to its last. -/
def isDrain : Task → Bool
  | .draining _ _ _ | .drained _ | .reopening _ => true
  | _ => false

/-- What a task may do outside the guard, some locks being free: it goes on as another task, or ends. -/
inductive Moves (free : Nat → Prop) : Task → Multiset Task → Prop
  | lock {teamId kind token slot} (hfree : free slot) :
      Moves free (.asking teamId kind token slot) {.locked teamId kind token slot}
  | fail {teamId kind token slot} (hfree : ¬free slot) :
      Moves free (.asking teamId kind token slot) {.refused teamId kind}
  | release {teamId slot} : Moves free (.releasing teamId slot) 0
  | acquire {teamId slot} (hfree : free slot) :
      Moves free (.waiting teamId slot) {.exclusive teamId slot}
  | giveUp {teamId slot} : Moves free (.waiting teamId slot) 0
  | finish {teamId slot} : Moves free (.exclusive teamId slot) 0
  | take {teamId slot slots held} (hfree : free slot) :
      Moves free (.draining [] ((teamId, slot) :: slots) held) {.draining [] slots ((teamId, slot) :: held)}
  | complete {held} : Moves free (.draining [] [] held) {.drained held}
  | abandon {running slots held} :
      Moves free (.draining running slots held) {.reopening held}
  | dropGuard {held} : Moves free (.drained held) {.reopening held}
  | releaseOne {entry held} :
      Moves free (.reopening (entry :: held)) {.reopening held}

end Task

/-- The executions with everything that runs on them. -/
structure World where
  state : State := {}
  /-- The chat limit its store answers. -/
  limit : Nat
  /-- The identity of the next new lock. -/
  next : Nat := 0
  /-- The tokens given so far. -/
  used : List String := []
  tasks : Multiset Task := 0

inductive Event where
  | admitted (teamId : String) (kind : ExecutionKind) (token : String)
  | refused (refusal : Refusal)
  /-- `cancel` answered a token, or none. -/
  | cancelled (token : Option String)
  /-- `commit` ran its closure, which succeeded or not. -/
  | ran (token : String) (succeeded : Bool)
  | quiet

namespace World

def refs (world : World) : Multiset (String × Nat) := world.tasks.bind Task.refs

def held (world : World) : Multiset (String × Nat) := world.tasks.bind Task.held

def tokens (world : World) : Multiset String := world.tasks.bind Task.token

/-- Whether a lock has another reference than its table's. -/
def referenced (world : World) (slot : Nat) : Bool := decide (slot ∈ world.refs.map Prod.snd)

/-- Whether nobody holds a lock. -/
def Free (world : World) (slot : Nat) : Prop := ∀ entry ∈ world.held, entry.2 ≠ slot

def slot (world : World) (teamId : String) : World × Nat :=
  let slot := world.state.slot teamId world.referenced world.next
  ({ world with state := slot.1, next := world.next + 1 }, slot.2)

/-- The Space before its first execution. -/
def start (limit : Nat) : World := { limit := limit }

end World

/-- Whether a closure's outcome is a success. -/
def succeeded {ε α : Type} : Except ε α → Bool
  | .ok _ => true
  | .error _ => false

inductive Step : World → Event → World → Prop
  | ask {world : World} (teamId : String) (kind : ExecutionKind) {token : String} (hfresh : token ∉ world.used) :
      Step world .quiet
        { (world.slot teamId).1 with used := token :: world.used
                                     tasks := .asking teamId kind token (world.slot teamId).2 ::ₘ world.tasks }
  | move {world : World} {task : Task} {rest after : Multiset Task} (htasks : world.tasks = task ::ₘ rest)
      (hmoves : task.Moves world.Free after) : Step world .quiet { world with tasks := after + rest }
  | refuse {world : World} {teamId : String} {kind : ExecutionKind} {rest : Multiset Task}
      (htasks : world.tasks = .refused teamId kind ::ₘ rest) :
      Step world (.refused (world.state.refuseHeld teamId kind).2)
        { world with state := (world.state.refuseHeld teamId kind).1, tasks := rest }
  | register {world : World} {teamId : String} {kind : ExecutionKind} {token : String} {slot : Nat}
      {rest : Multiset Task} {state : State} (htasks : world.tasks = .locked teamId kind token slot ::ₘ rest)
      (hregister : world.state.admission teamId world.limit kind token = .ok state) :
      Step world (.admitted teamId kind token)
        { world with state := state, tasks := .execution teamId token kind.routineId.isSome slot ::ₘ rest }
  | turnAway {world : World} {teamId : String} {kind : ExecutionKind} {token : String} {slot : Nat}
      {rest : Multiset Task} {refusal : Refusal}
      (htasks : world.tasks = .locked teamId kind token slot ::ₘ rest)
      (hregister : world.state.admission teamId world.limit kind token = .error refusal) :
      Step world (.refused refusal) { world with tasks := .releasing teamId slot ::ₘ rest }
  | cancel {world : World} (teamId : String) (spareRoutine : Bool) :
      Step world (.cancelled (world.state.cancel teamId spareRoutine).2)
        { world with state := (world.state.cancel teamId spareRoutine).1 }
  | commit {world : World} {teamId token : String} {isRoutine : Bool} {slot : Nat} {ε α : Type}
      {before outcome : Except ε α} (htask : .execution teamId token isRoutine slot ∈ world.tasks)
      (hran : (world.state.commit teamId token before).2 = some outcome) :
      Step world (.ran token (succeeded outcome))
        { world with state := (world.state.commit teamId token before).1 }
  | commitLate {world : World} {teamId token : String} {isRoutine : Bool} {slot : Nat} {ε α : Type}
      {before : Except ε α} (htask : .execution teamId token isRoutine slot ∈ world.tasks)
      (hran : (world.state.commit teamId token before).2 = none) :
      Step world .quiet { world with state := (world.state.commit teamId token before).1 }
  | drop {world : World} {teamId token : String} {isRoutine : Bool} {slot : Nat} {rest : Multiset Task}
      (htasks : world.tasks = .execution teamId token isRoutine slot ::ₘ rest) (now : Nat) :
      Step world .quiet
        { world with state := world.state.dropped teamId token isRoutine now
                     tasks := .releasing teamId slot ::ₘ rest }
  | exclusive {world : World} (teamId : String) :
      Step world .quiet
        { (world.slot teamId).1 with tasks := .waiting teamId (world.slot teamId).2 ::ₘ world.tasks }
  | drain {world : World} (halone : ∀ task ∈ world.tasks, task.isDrain = false) :
      Step world .quiet
        { world with state := world.state.drain.1
                     tasks := .draining world.state.drain.2.1 world.state.drain.2.2 [] ::ₘ world.tasks }
  | drainCancel {world : World} {teamId : String} {running : List String} {slots held : List (String × Nat)}
      {rest : Multiset Task} (htasks : world.tasks = .draining (teamId :: running) slots held ::ₘ rest) :
      Step world (.cancelled (world.state.cancel teamId false).2)
        { world with state := (world.state.cancel teamId false).1, tasks := .draining running slots held ::ₘ rest }
  | reopen {world : World} {rest : Multiset Task} (htasks : world.tasks = .reopening [] ::ₘ rest) :
      Step world .quiet { world with state := { world.state with closed := false }, tasks := rest }
  | saveLimit {world : World} (limit : Nat) : Step world .quiet { world with limit := limit }
  | clearDemand {world : World} (teamId : String) :
      Step world .quiet
        { world with state := { world.state with demand := world.state.demand.erase teamId } }

inductive Reaches (start : World) : List Event → World → Prop
  | refl : Reaches start [] start
  | step {events : List Event} {event} {world next : World} (hreached : Reaches start events world)
      (hstep : Step world event next) : Reaches start (events ++ [event]) next

open List

open Multiset (cons_bind subset_of_le nodup_of_le mem_add add_bind)

variable {teamId token : String} {isRoutine : Bool} {task : Task} {rest after : Multiset Task}
  {kind : ExecutionKind} {state : State}

section

variable {free : Nat → Prop} {task : Task} {after : Multiset Task}

theorem Task.held_le_refs (task : Task) : task.held ≤ task.refs := by
  cases task <;> simp [Task.held, Task.refs]
  case draining => exact (sublist_append_right _ _).subperm

theorem Task.Moves.refs_le (h : task.Moves free after) : after.bind Task.refs ≤ task.refs := by
  cases h <;> simp [Task.refs]
  case take => exact perm_middle.subperm
  case abandon => exact (sublist_append_right _ _).subperm
  case releaseOne => exact (sublist_cons_self _ _).subperm

/-- A task holds no more than it did, or one free lock that it references. -/
theorem Task.Moves.held (h : task.Moves free after) : after.bind Task.held ≤ task.held ∨
      ∃ entry ∈ task.refs, free entry.2 ∧ after.bind Task.held = entry ::ₘ task.held := by
  cases h with
  | @lock teamId _ _ slot hfree =>
    exact .inr ⟨(teamId, slot), by simp [Task.refs], hfree, by simp [Task.held]⟩
  | @acquire teamId slot hfree =>
    exact .inr ⟨(teamId, slot), by simp [Task.refs], hfree, by simp [Task.held]⟩
  | @take teamId slot slots held hfree =>
    exact .inr ⟨(teamId, slot), by simp [Task.refs], hfree, by simp [Task.held]⟩
  | releaseOne => exact .inl (by simpa [Task.held] using (sublist_cons_self _ _).subperm)
  | fail | release | giveUp | finish | complete | abandon | dropGuard => exact .inl (by simp [Task.held])

theorem Task.Moves.token_le (h : task.Moves free after) : after.bind Task.token ≤ task.token := by
  cases h <;> simp [Task.token]

/-- Executions begin and end under the guard only. -/
theorem Task.Moves.execution (h : task.Moves free after) {slot} :
    task ≠ .execution teamId token isRoutine slot ∧ .execution teamId token isRoutine slot ∉ after := by
  cases h <;> simp

theorem Task.Moves.isDrain (h : task.Moves free after) :
    (after.map fun task => task.isDrain.toNat).sum = task.isDrain.toNat := by
  cases h <;> simp [Task.isDrain]

end

section

variable {world other : World}

/-- Every reference is to its Team's current lock, each Team's lock has one holder, and each token one
bearer. -/
structure Placed (world : World) : Prop where
  interned : Interned world.state.slots world.next world.refs
  exclusive : (world.held.map Prod.fst).Nodup
  tokens : world.tokens.Nodup
  used : ∀ token ∈ world.tokens, token ∈ world.used

theorem World.held_le_refs (world : World) : world.held ≤ world.refs := by
  rw [World.held, World.refs]
  induction world.tasks using Multiset.induction_on with
  | empty => exact le_rfl
  | cons task rest ih =>
    rw [cons_bind, cons_bind]
    exact add_le_add task.held_le_refs ih

theorem World.mem_held (htask : task ∈ world.tasks) {entry} (hentry : entry ∈ task.held) : entry ∈ world.held :=
  Multiset.mem_bind.mpr ⟨task, htask, hentry⟩

theorem Placed.mono (h : Placed world) (hslots : other.state.slots = world.state.slots)
    (hnext : other.next = world.next) (hused : other.used = world.used) (hrefs : other.refs ≤ world.refs)
    (hheld : other.held ≤ world.held) (htokens : other.tokens ≤ world.tokens) : Placed other where
  interned := by
    rw [hslots, hnext]
    exact h.interned.mono (subset_of_le hrefs)
  exclusive := nodup_of_le (Multiset.map_le_map hheld) h.exclusive
  tokens := nodup_of_le htokens h.tokens
  used token htoken := by
    rw [hused]
    exact h.used token (subset_of_le htokens htoken)

/-- A Team has one lock, so where that is free nobody holds the Team's slot. -/
theorem Placed.not_held (h : Placed world) {entry} (hentry : entry ∈ world.refs)
    (hfree : world.Free entry.2) : entry.1 ∉ world.held.map Prod.fst := by
  intro hheld
  obtain ⟨holder, hholder, hteam⟩ := Multiset.mem_map.mp hheld
  have hrefs : holder ∈ world.refs := subset_of_le world.held_le_refs hholder
  exact hfree holder hholder ((h.interned.same hrefs hentry).mp hteam)

theorem Placed.move (h : Placed world) (htasks : world.tasks = task ::ₘ rest)
    (hmoves : task.Moves world.Free after) : Placed { world with tasks := after + rest } := by
  have hrefs : world.refs = task.refs + rest.bind Task.refs := by
    rw [World.refs, htasks, cons_bind]
  have hheld : world.held = task.held + rest.bind Task.held := by
    rw [World.held, htasks, cons_bind]
  have htokens : world.tokens = task.token + rest.bind Task.token := by
    rw [World.tokens, htasks, cons_bind]
  have hfewer : (after + rest).bind Task.refs ≤ world.refs := by
    rw [add_bind, hrefs]
    exact add_le_add_left hmoves.refs_le _
  refine ⟨h.interned.mono (subset_of_le hfewer), ?_, ?_, ?_⟩
  · change (((after + rest).bind Task.held).map Prod.fst).Nodup
    rw [add_bind]
    have hexclusive := h.exclusive
    rw [hheld] at hexclusive
    rcases hmoves.held with hless | ⟨entry, hentry, hfree, hmore⟩
    · exact nodup_of_le (Multiset.map_le_map (add_le_add_left hless _)) hexclusive
    · have hnew : entry.1 ∉ (task.held + rest.bind Task.held).map Prod.fst := by
        rw [← hheld]
        refine h.not_held ?_ hfree
        rw [hrefs]
        exact mem_add.mpr (.inl hentry)
      rw [hmore, Multiset.cons_add, Multiset.map_cons]
      exact Multiset.nodup_cons.mpr ⟨hnew, hexclusive⟩
  · have hbearers := h.tokens
    rw [htokens] at hbearers
    change ((after + rest).bind Task.token).Nodup
    rw [add_bind]
    exact nodup_of_le (add_le_add_left hmoves.token_le _) hbearers
  · intro token htoken
    refine h.used token ?_
    rw [htokens]
    change token ∈ (after + rest).bind Task.token at htoken
    rw [add_bind] at htoken
    exact subset_of_le (add_le_add_left hmoves.token_le _) htoken

theorem Placed.slot (h : Placed world) {used}
    (hrefs : task.refs = {(teamId, (world.slot teamId).2)}) (hheld : task.held = 0)
    (htoken : (task.token + world.tokens).Nodup) (hused : world.used ⊆ used)
    (hown : ∀ token ∈ task.token, token ∈ used) :
    Placed { (world.slot teamId).1 with used := used, tasks := task ::ₘ world.tasks } where
  interned := by
    have hkept : Interned (world.state.slots.retain fun _ slot => world.referenced slot) world.next world.refs :=
      h.interned.retain fun entry hentry => decide_eq_true (Multiset.mem_map_of_mem Prod.snd hentry)
    have hinterned := hkept.intern teamId
    rw [← Multiset.singleton_add] at hinterned
    change Interned _ _ ((task ::ₘ world.tasks).bind Task.refs)
    rw [cons_bind, hrefs]
    exact hinterned
  exclusive := by
    change (((task ::ₘ world.tasks).bind Task.held).map Prod.fst).Nodup
    rw [cons_bind, hheld, zero_add]
    exact h.exclusive
  tokens := by
    change ((task ::ₘ world.tasks).bind Task.token).Nodup
    rw [cons_bind]
    exact htoken
  used token hmem := by
    change token ∈ (task ::ₘ world.tasks).bind Task.token at hmem
    rw [cons_bind] at hmem
    rcases mem_add.mp hmem with hnew | hold
    · exact hown token hnew
    · exact hused (h.used token hold)

end

section

variable {state next : State} {teamId token : String}

/-- A held slot changes a demand only, and only while a Routine is registered. -/
theorem State.refuseHeld_cases (state : State) (teamId kind) : (state.refuseHeld teamId kind).1 = state ∨
      ∃ active, state.active.lookup teamId = some active ∧ active.routine.isSome = true ∧
        (state.refuseHeld teamId kind).1 = { state with demand := state.demand.insert teamId .waiting } := by
  by_cases hroutine : ((state.active.lookup teamId).bind Active.routine).isNone = true
  · exact .inl (by rw [State.refuseHeld.eq_def, if_pos hroutine])
  rw [State.refuseHeld.eq_def, if_neg hroutine]
  cases kind with
  | routine => exact .inl rfl
  | chat =>
    cases hactive : state.active.lookup teamId with
    | none => simp [hactive] at hroutine
    | some active => exact .inr ⟨active, rfl, by simpa [hactive, Option.isSome_iff_ne_none] using hroutine, rfl⟩

theorem State.cancel_cases (state : State) (teamId spareRoutine) : state.cancel teamId spareRoutine = (state, none) ∨
      ∃ active, state.active.lookup teamId = some active ∧ state.cancel teamId spareRoutine =
          ({ state with active := state.active.insert teamId { active with cancelled := true } },
            some active.token) := by
  rw [State.cancel]
  cases hactive : state.active.lookup teamId with
  | none => exact .inl rfl
  | some active =>
    dsimp only
    split
    · exact .inl rfl
    · exact .inr ⟨active, rfl, rfl⟩

/-- A commit leaves the state, or ends the registration of an execution that was not cancelled. -/
theorem State.commit_cases {ε α} (state : State) (teamId token) (before : Except ε α) :
    state.commit teamId token before = (state, none) ∨
      ∃ current, state.active.lookup teamId = some current ∧ current.token = token ∧
        current.cancelled = false ∧ (state.commit teamId token before).2 = some before ∧
        (state.commit teamId token before).1 =
          if succeeded before then { state with active := state.active.erase teamId } else state := by
  rw [State.commit.eq_def]
  cases hcurrent : state.active.lookup teamId with
  | none => exact .inl rfl
  | some current =>
    dsimp only
    split
    · exact .inl rfl
    next hlive =>
      simp only [Bool.or_eq_true, bne_iff_ne, ne_eq, not_or, not_not, Bool.not_eq_true] at hlive
      refine .inr ⟨current, rfl, hlive.1, hlive.2, ?_⟩
      cases before with
      | ok value => exact ⟨rfl, rfl⟩
      | error refusal => exact ⟨rfl, rfl⟩

theorem State.admission_cases {limit} (h : state.admission teamId limit kind token = .ok next) :
    state.closed = false ∧ next.closed = false ∧ next.slots = state.slots ∧
      next.active = state.active.insert teamId ⟨token, kind.routineId, false⟩ ∧
      (kind = .chat → state.chatExecutions < limit) ∧
      ∀ other demand, next.demand.lookup other = some demand → state.demand.lookup other = some demand := by
  rw [State.admission] at h
  split at h
  · cases h
  next hopen =>
    rw [Bool.not_eq_true] at hopen
    cases kind with
    | routine routineId =>
      cases h
      exact ⟨hopen, hopen, rfl, rfl, (fun hchat => nomatch hchat), fun _ _ hdemand => hdemand⟩
    | chat =>
      dsimp only at h
      split at h
      · cases h
      next hlimit =>
        cases h
        refine ⟨hopen, hopen, rfl, rfl, fun _ => Nat.lt_of_not_le hlimit, ?_⟩
        intro other demand hdemand
        exact (Table.lookup_erase_eq_some.mp hdemand).2

/-- A dropped execution is no longer registered, and where it was a Routine's nobody waits. -/
theorem State.dropped_cases (state : State) (teamId token isRoutine now) :
    (∀ other active, (state.dropped teamId token isRoutine now).active.lookup other = some active →
      state.active.lookup other = some active ∧ (other = teamId → active.token ≠ token)) ∧
    ∀ other, (state.dropped teamId token isRoutine now).demand.lookup other = some .waiting →
      state.demand.lookup other = some .waiting ∧ (other = teamId → isRoutine = false) := by
  rw [State.dropped]
  constructor
  · intro other active hactive
    dsimp only at hactive
    split at hactive
    next =>
      obtain ⟨hne, hold⟩ := Table.lookup_erase_eq_some.mp hactive
      exact ⟨hold, fun heq => absurd heq hne⟩
    next hother =>
      refine ⟨hactive, ?_⟩
      rintro rfl htoken
      simp [hactive, htoken] at hother
  · intro other hwaiting
    dsimp only at hwaiting
    split at hwaiting
    next =>
      rcases Table.lookup_insert_eq_some.mp hwaiting with ⟨-, hsince⟩ | ⟨hne, hold⟩
      · cases hsince
      · exact ⟨hold, fun heq => absurd heq hne⟩
    next hnone =>
      refine ⟨hwaiting, ?_⟩
      rintro rfl
      simpa [hwaiting] using hnone

end

section

variable {world other : World}

structure Registered (world : World) : Prop where
  holds : ∀ teamId active, world.state.active.lookup teamId = some active →
    ∃ slot, .execution teamId active.token active.routine.isSome slot ∈ world.tasks
  waits : ∀ teamId, world.state.demand.lookup teamId = some .waiting →
    ∃ token slot, .execution teamId token true slot ∈ world.tasks

/-- The step of a task that is no execution ends none. -/
theorem World.execution_kept (htasks : world.tasks = task ::ₘ rest)
    (hother : ∀ teamId token isRoutine slot, task ≠ .execution teamId token isRoutine slot)
    (teamId token isRoutine slot) (hexec : .execution teamId token isRoutine slot ∈ world.tasks) :
    .execution teamId token isRoutine slot ∈ rest := by
  rw [htasks] at hexec
  exact (Multiset.mem_cons.mp hexec).resolve_left (hother _ _ _ _).symm

theorem Registered.mono (h : Registered world)
    (hactive : ∀ teamId active, other.state.active.lookup teamId = some active →
      ∃ earlier, world.state.active.lookup teamId = some earlier ∧ earlier.token = active.token ∧
        earlier.routine = active.routine) (hdemand : ∀ teamId, other.state.demand.lookup teamId = some .waiting →
      world.state.demand.lookup teamId = some .waiting)
    (htasks : ∀ teamId token isRoutine slot, .execution teamId token isRoutine slot ∈ world.tasks →
      .execution teamId token isRoutine slot ∈ other.tasks) : Registered other where
  holds teamId active hlookup := by
    obtain ⟨earlier, hearlier, htoken, hroutine⟩ := hactive teamId active hlookup
    obtain ⟨slot, hslot⟩ := h.holds teamId earlier hearlier
    rw [htoken, hroutine] at hslot
    exact ⟨slot, htasks _ _ _ _ hslot⟩
  waits teamId hlookup := by
    obtain ⟨token, slot, hslot⟩ := h.waits teamId (hdemand teamId hlookup)
    exact ⟨token, slot, htasks _ _ _ _ hslot⟩

theorem Registered.same (h : Registered world) (hstate : other.state.active = world.state.active)
    (hdemand : other.state.demand = world.state.demand)
    (htasks : ∀ teamId token isRoutine slot, .execution teamId token isRoutine slot ∈ world.tasks →
      .execution teamId token isRoutine slot ∈ other.tasks) : Registered other := by
  refine h.mono ?_ ?_ htasks
  · intro teamId active hlookup
    exact ⟨active, hstate ▸ hlookup, rfl, rfl⟩
  · intro teamId hlookup
    exact hdemand ▸ hlookup

theorem Registered.cancel (h : Registered world) (teamId spareRoutine) :
    Registered { world with state := (world.state.cancel teamId spareRoutine).1 } := by
  rcases world.state.cancel_cases teamId spareRoutine with hsame | ⟨active, hactive, hcancel⟩
  · rw [hsame]
    exact h
  · rw [hcancel]
    refine h.mono ?_ (fun _ hlookup => hlookup) (fun _ _ _ _ htask => htask)
    intro teamId' found hfound
    rcases Table.lookup_insert_eq_some.mp hfound with ⟨rfl, rfl⟩ | ⟨-, hold⟩
    · exact ⟨active, hactive, rfl, rfl⟩
    · exact ⟨found, hold, rfl, rfl⟩

theorem Registered.commit {ε α} (h : Registered world) (teamId token) (before : Except ε α) :
    Registered { world with state := (world.state.commit teamId token before).1 } := by
  rcases world.state.commit_cases teamId token before with hsame | ⟨current, -, -, -, -, hstate⟩
  · rw [hsame]
    exact h
  · rw [hstate]
    refine h.mono ?_ ?_ (fun _ _ _ _ htask => htask)
    · intro other active hlookup
      refine ⟨active, ?_, rfl, rfl⟩
      split at hlookup
      · exact (Table.lookup_erase_eq_some.mp hlookup).2
      · exact hlookup
    · intro other hlookup
      split at hlookup
      · exact hlookup
      · exact hlookup

theorem Registered.refuse (h : Registered world) (htasks : world.tasks = .refused teamId kind ::ₘ rest) :
    Registered { world with state := (world.state.refuseHeld teamId kind).1, tasks := rest } := by
  have hkept := World.execution_kept htasks (by simp)
  rcases world.state.refuseHeld_cases teamId kind with hsame | ⟨active, hactive, hroutine, hstate⟩
  · rw [hsame]
    exact h.same rfl rfl hkept
  · rw [hstate]
    refine ⟨?_, ?_⟩
    · intro other found hfound
      obtain ⟨slot, hslot⟩ := h.holds other found hfound
      exact ⟨slot, hkept _ _ _ _ hslot⟩
    · intro other hwaiting
      rcases Table.lookup_insert_eq_some.mp hwaiting with ⟨rfl, -⟩ | ⟨-, hold⟩
      · obtain ⟨slot, hslot⟩ := h.holds other active hactive
        rw [hroutine] at hslot
        exact ⟨active.token, slot, hkept _ _ _ _ hslot⟩
      · obtain ⟨token, slot, hslot⟩ := h.waits other hold
        exact ⟨token, slot, hkept _ _ _ _ hslot⟩

theorem Registered.register (h : Registered world) {slot}
    (htasks : world.tasks = .locked teamId kind token slot ::ₘ rest)
    (hregister : world.state.admission teamId world.limit kind token = .ok state) :
    Registered { world with state := state, tasks := .execution teamId token kind.routineId.isSome slot ::ₘ rest } := by
  obtain ⟨-, -, -, hactive, -, hdemand⟩ := State.admission_cases hregister
  have hkept := World.execution_kept htasks (by simp)
  refine ⟨?_, ?_⟩
  · intro other active hlookup
    rw [show state.active = _ from hactive] at hlookup
    rcases Table.lookup_insert_eq_some.mp hlookup with ⟨rfl, rfl⟩ | ⟨-, hold⟩
    · exact ⟨slot, Multiset.mem_cons_self _ _⟩
    · obtain ⟨found, hfound⟩ := h.holds other active hold
      exact ⟨found, Multiset.mem_cons_of_mem (hkept _ _ _ _ hfound)⟩
  · intro other hwaiting
    obtain ⟨bearer, found, hfound⟩ := h.waits other (hdemand other _ hwaiting)
    exact ⟨bearer, found, Multiset.mem_cons_of_mem (hkept _ _ _ _ hfound)⟩

theorem Registered.drop (h : Registered world) {slot}
    (htasks : world.tasks = .execution teamId token isRoutine slot ::ₘ rest) (now) :
    Registered { world with state := world.state.dropped teamId token isRoutine now
                            tasks := .releasing teamId slot ::ₘ rest } := by
  obtain ⟨hactive, hdemand⟩ := world.state.dropped_cases teamId token isRoutine now
  -- another execution than the dropped one stays
  have hkept : ∀ other bearer routine found, .execution other bearer routine found ∈ world.tasks →
      (other = teamId → bearer ≠ token ∨ routine ≠ isRoutine) →
      .execution other bearer routine found ∈ Task.releasing teamId slot ::ₘ rest := by
    intro other bearer routine found htask hne
    rw [htasks] at htask
    rcases Multiset.mem_cons.mp htask with heq | hrest
    · simp only [Task.execution.injEq] at heq
      obtain ⟨rfl, rfl, rfl, -⟩ := heq
      rcases hne rfl with htoken | hroutine
      · exact absurd rfl htoken
      · exact absurd rfl hroutine
    · exact Multiset.mem_cons_of_mem hrest
  refine ⟨?_, ?_⟩
  · intro other active hlookup
    obtain ⟨hold, hne⟩ := hactive other active hlookup
    obtain ⟨found, hfound⟩ := h.holds other active hold
    exact ⟨found, hkept _ _ _ _ hfound fun heq => .inl (hne heq)⟩
  · intro other hwaiting
    obtain ⟨hold, hchat⟩ := hdemand other hwaiting
    obtain ⟨bearer, found, hfound⟩ := h.waits other hold
    refine ⟨bearer, found, hkept _ _ _ _ hfound fun heq => .inr ?_⟩
    rw [hchat heq]
    decide

end

variable {world : World}

def Task.awaits : Task → Option (List (String × Nat))
  | .draining _ slots _ => some slots
  | .drained _ => some []
  | _ => none

def World.drains (world : World) : Nat := (world.tasks.map fun task => task.isDrain.toNat).sum

/-- Admission is closed exactly while one drain runs, and it awaits the slot of every execution. -/
structure Drains (world : World) : Prop where
  count : world.drains = world.state.closed.toNat
  awaited : ∀ task ∈ world.tasks, ∀ slots, task.awaits = some slots →
    ∀ teamId token isRoutine slot, .execution teamId token isRoutine slot ∈ world.tasks → (teamId, slot) ∈ slots

/-- A task goes on as others of no other part in a drain, and no execution begins. -/
theorem Drains.replace (h : Drains world) (htasks : world.tasks = task ::ₘ rest)
    (hclosed : state.closed = world.state.closed)
    (hdrain : (after.map fun task => task.isDrain.toNat).sum = task.isDrain.toNat)
    (hexecution : ∀ teamId token isRoutine slot, .execution teamId token isRoutine slot ∉ after)
    (hawaits : ∀ next ∈ after, ∀ slots, next.awaits = some slots →
      ∃ earlier, task.awaits = some earlier ∧ ∀ teamId token isRoutine slot,
        .execution teamId token isRoutine slot ∈ world.tasks → (teamId, slot) ∈ earlier → (teamId, slot) ∈ slots)
    {limit next used} : Drains ⟨state, limit, next, used, after + rest⟩ where
  count := by
    have hcount := h.count
    rw [World.drains, htasks, Multiset.map_cons, Multiset.sum_cons] at hcount
    rw [World.drains, Multiset.map_add, Multiset.sum_add, hdrain, hcount, hclosed]
  awaited part hpart slots hslots teamId token isRoutine slot hexec := by
    have hearlier : .execution teamId token isRoutine slot ∈ world.tasks := by
      rw [htasks]
      exact Multiset.mem_cons_of_mem ((mem_add.mp hexec).resolve_left (hexecution _ _ _ _))
    rcases mem_add.mp hpart with hafter | hrest
    · obtain ⟨earlier, htask, hkept⟩ := hawaits part hafter slots hslots
      refine hkept _ _ _ _ hearlier (h.awaited task ?_ earlier htask _ _ _ _ hearlier)
      rw [htasks]
      exact Multiset.mem_cons_self _ _
    · refine h.awaited part ?_ slots hslots _ _ _ _ hearlier
      rw [htasks]
      exact Multiset.mem_cons_of_mem hrest

/-- A lock that an execution holds is not free, so a drain that takes one awaits all executions still. -/
theorem Task.Moves.awaits (h : task.Moves world.Free after) : ∀ next ∈ after, ∀ slots, next.awaits = some slots →
      ∃ earlier, task.awaits = some earlier ∧ ∀ teamId token isRoutine slot,
        .execution teamId token isRoutine slot ∈ world.tasks → (teamId, slot) ∈ earlier → (teamId, slot) ∈ slots := by
  intro next hnext slots hslots
  cases h with
  | @take teamId taken left held hfree =>
    obtain rfl := Multiset.mem_singleton.mp hnext
    obtain rfl := Option.some.inj hslots
    refine ⟨(teamId, taken) :: left, rfl, ?_⟩
    intro other token isRoutine slot hexec hentry
    refine (mem_cons.mp hentry).resolve_left ?_
    intro heq
    exact hfree _ (World.mem_held hexec (Multiset.mem_singleton_self _)) (congrArg Prod.snd heq)
  | complete =>
    obtain rfl := Multiset.mem_singleton.mp hnext
    obtain rfl := Option.some.inj hslots
    exact ⟨[], rfl, fun _ _ _ _ _ hentry => hentry⟩
  | lock | fail | acquire | abandon | dropGuard | releaseOne =>
    obtain rfl := Multiset.mem_singleton.mp hnext
    cases hslots
  | release | giveUp | finish => cases Multiset.notMem_zero _ hnext

/-- While admission is open no drain runs. -/
theorem Drains.none_of_open (h : Drains world) (hopen : world.state.closed = false) :
    ∀ task ∈ world.tasks, task.isDrain = false := by
  intro task htask
  have hcount := h.count
  rw [hopen, World.drains, Bool.toNat_false] at hcount
  have hzero := Multiset.sum_eq_zero_iff.mp hcount task.isDrain.toNat
    (Multiset.mem_map_of_mem (fun task : Task => task.isDrain.toNat) htask)
  simpa using hzero

theorem Task.awaits_eq_none (h : task.isDrain = false) : task.awaits = none := by
  cases task <;> first | rfl | cases h

theorem Drains.register (h : Drains world) {slot} (htasks : world.tasks = .locked teamId kind token slot ::ₘ rest)
    (hopen : world.state.closed = false) (hclosed : state.closed = false) :
    Drains { world with state := state, tasks := .execution teamId token isRoutine slot ::ₘ rest } where
  count := by
    have hcount := h.count
    rw [World.drains, htasks, Multiset.map_cons, Multiset.sum_cons, hopen] at hcount
    rw [World.drains, Multiset.map_cons, Multiset.sum_cons, hclosed]
    exact hcount
  awaited task htask slots hslots := by
    rcases Multiset.mem_cons.mp htask with rfl | hrest
    · cases hslots
    · have hdrain := h.none_of_open hopen task (htasks ▸ Multiset.mem_cons_of_mem hrest)
      cases (Task.awaits_eq_none hdrain).symm.trans hslots

/-- A new drain awaits every slot that exists, so that of every execution. -/
theorem Drains.drain (hplaced : Placed world) (halone : ∀ task ∈ world.tasks, task.isDrain = false) :
    Drains { world with state := world.state.drain.1
                        tasks := .draining world.state.drain.2.1 world.state.drain.2.2 [] ::ₘ world.tasks } where
  count := by
    have hnone : world.drains = 0 := by
      rw [World.drains, Multiset.sum_eq_zero_iff]
      intro count hcount
      obtain ⟨task, htask, rfl⟩ := Multiset.mem_map.mp hcount
      rw [halone task htask]
      rfl
    change ((Task.draining _ _ _ ::ₘ world.tasks).map fun task => task.isDrain.toNat).sum = 1
    rw [Multiset.map_cons, Multiset.sum_cons]
    exact congrArg (1 + ·) hnone
  awaited task htask slots hslots teamId token isRoutine slot hexec := by
    have hearlier : .execution teamId token isRoutine slot ∈ world.tasks :=
      (Multiset.mem_cons.mp hexec).resolve_left (by simp)
    rcases Multiset.mem_cons.mp htask with rfl | hrest
    · cases hslots
      have hcurrent := hplaced.interned.current (teamId, slot)
        (Multiset.mem_bind.mpr ⟨_, hearlier, Multiset.mem_singleton_self _⟩)
      exact mem_map.mpr ⟨⟨teamId, slot⟩, Table.lookup_eq_some.mp hcurrent, rfl⟩
    · cases (Task.awaits_eq_none (halone task hrest)).symm.trans hslots

end ShimpzTeams.Coordination
