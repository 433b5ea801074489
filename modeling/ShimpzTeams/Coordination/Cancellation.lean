import ShimpzTeams.Coordination.Slots
import ShimpzTeams.Library.Window

/-!
# Cancellation is decided once

An execution that was cancelled stays so for as long as it is registered, and
one that committed is registered no more. Its token is no other execution's, so
of a cancellation and a commit the first decides.
-/

namespace ShimpzTeams.Coordination

open Library List
open Multiset (cons_bind notMem_zero singleton_add mem_add add_bind)

variable {event : Event} {task : Task} {after rest : Multiset Task} {token teamId : String}
  {isRoutine : Bool} {state : State}

section

def Task.asks : Task → Option String
  | .asking _ _ token _ | .locked _ _ token _ => some token
  | _ => none

def Event.decides : Event → Option String
  | .cancelled token => token
  | .ran token _ => some token
  | _ => none

/-- No closure runs after its execution was cancelled, and none is cancelled after it committed. -/
def DecidedOnce (events : List Event) : Prop :=
  ∀ earlier event later, events = earlier ++ event :: later →
    (∀ token succeeded, event = .ran token succeeded → .cancelled (some token) ∉ earlier) ∧
      ∀ token, event = .cancelled (some token) → .ran token true ∉ earlier

theorem DecidedOnce.snoc {events} (h : DecidedOnce events)
    (hran : ∀ token succeeded, event = .ran token succeeded → .cancelled (some token) ∉ events)
    (hcancelled : ∀ token, event = .cancelled (some token) → .ran token true ∉ events) :
    DecidedOnce (events ++ [event]) :=
  forall_split_snoc h ⟨hran, hcancelled⟩

/-- What the events so far leave of the executions they decided about. -/
structure Decided (events : List Event) (world : World) : Prop where
  named : ∀ event ∈ events, ∀ token, event.decides = some token →
    token ∈ world.used ∧ ∀ task ∈ world.tasks, task.asks ≠ some token
  cancelled : ∀ token, .cancelled (some token) ∈ events → ∀ teamId active,
    world.state.active.lookup teamId = some active → active.token = token → active.cancelled = true
  committed : ∀ token, .ran token true ∈ events → ∀ teamId active,
    world.state.active.lookup teamId = some active → active.token ≠ token
  once : DecidedOnce events

variable {events : List Event} {event : Event} {world next : World}

/-- What is asked for was asked for or has a token not used before, and what is registered was
registered or asked for. -/
structure Carried (world next : World) : Prop where
  used : world.used ⊆ next.used
  asks : ∀ task ∈ next.tasks, ∀ token, task.asks = some token →
    (∃ earlier ∈ world.tasks, earlier.asks = some token) ∨ token ∉ world.used
  active : ∀ teamId active, next.state.active.lookup teamId = some active →
    (∃ earlier, world.state.active.lookup teamId = some earlier ∧ earlier.token = active.token ∧
      (earlier.cancelled = true → active.cancelled = true)) ∨
    ∃ task ∈ world.tasks, task.asks = some active.token

/-- One task goes on as others that ask for no other token, and nothing is registered anew. -/
theorem Carried.replace (htasks : world.tasks = task ::ₘ rest)
    (hasks : ∀ part ∈ after, ∀ token, part.asks = some token → task.asks = some token)
    (hactive : ∀ teamId active, state.active.lookup teamId = some active →
      world.state.active.lookup teamId = some active) {limit slot} :
    Carried world ⟨state, limit, slot, world.used, after + rest⟩ where
  used := List.Subset.refl _
  asks part hpart token htoken := by
    rw [htasks]
    rcases mem_add.mp hpart with hafter | hrest
    · exact .inl ⟨task, Multiset.mem_cons_self _ _, hasks part hafter token htoken⟩
    · exact .inl ⟨part, Multiset.mem_cons_of_mem hrest, htoken⟩
  active teamId active hlookup := .inl ⟨active, hactive teamId active hlookup, rfl, id⟩

theorem Carried.same (hactive : ∀ teamId active, state.active.lookup teamId = some active →
      world.state.active.lookup teamId = some active) {limit slot} :
    Carried world ⟨state, limit, slot, world.used, world.tasks⟩ where
  used := List.Subset.refl _
  asks part hpart _ htoken := .inl ⟨part, hpart, htoken⟩
  active teamId active hlookup := .inl ⟨active, hactive teamId active hlookup, rfl, id⟩

theorem Decided.step (h : Decided events world) (hcarried : Carried world next)
    (hnamed : ∀ token, event.decides = some token → token ∈ next.used ∧ ∀ task ∈ next.tasks, task.asks ≠ some token)
    (hcancelled : ∀ token, event = .cancelled (some token) → .ran token true ∉ events ∧ ∀ teamId active,
      next.state.active.lookup teamId = some active → active.token = token → active.cancelled = true)
    (hran : ∀ token succeeded, event = .ran token succeeded → .cancelled (some token) ∉ events ∧
      (succeeded = true → ∀ teamId active, next.state.active.lookup teamId = some active → active.token ≠ token)) :
    Decided (events ++ [event]) next where
  named found hfound token htoken := by
    rcases mem_append.mp hfound with hold | hnew
    · obtain ⟨hgiven, hunasked⟩ := h.named found hold token htoken
      refine ⟨hcarried.used hgiven, ?_⟩
      intro task htask hasked
      rcases hcarried.asks task htask token hasked with ⟨earlier, hearlier, hsame⟩ | hfresh
      · exact hunasked earlier hearlier hsame
      · exact hfresh hgiven
    · obtain rfl := mem_singleton.mp hnew
      exact hnamed token htoken
  cancelled token htoken teamId active hlookup hsame := by
    rcases mem_append.mp htoken with hold | hnew
    · rcases hcarried.active teamId active hlookup with ⟨earlier, hearlier, heq, hkept⟩ | ⟨task, htask, hasked⟩
      · exact hkept (h.cancelled token hold teamId earlier hearlier (heq.trans hsame))
      · exact absurd (hsame ▸ hasked) ((h.named _ hold token rfl).2 task htask)
    · exact (hcancelled token (mem_singleton.mp hnew).symm).2 teamId active hlookup hsame
  committed token htoken teamId active hlookup hsame := by
    rcases mem_append.mp htoken with hold | hnew
    · rcases hcarried.active teamId active hlookup with ⟨earlier, hearlier, heq, -⟩ | ⟨task, htask, hasked⟩
      · exact h.committed token hold teamId earlier hearlier (heq.trans hsame)
      · exact (h.named _ hold token rfl).2 task htask (hsame ▸ hasked)
    · exact (hran token true (mem_singleton.mp hnew).symm).2 rfl teamId active hlookup hsame
  once := h.once.snoc (fun token succeeded heq => (hran token succeeded heq).1)
    fun token heq => (hcancelled token heq).1

theorem Decided.quiet (h : Decided events world) (hquiet : event.decides = none)
    (hcarried : Carried world next) : Decided (events ++ [event]) next := by
  refine h.step hcarried ?_ ?_ ?_
  · intro token htoken
    cases hquiet.symm.trans htoken
  · rintro token rfl
    cases hquiet
  · rintro token succeeded rfl
    cases hquiet

theorem Task.Moves.asks {free next} (h : task.Moves free after)
    (hnext : next ∈ after) (hasks : next.asks = some token) : task.asks = some token := by
  cases h with
  | lock =>
    obtain rfl := Multiset.mem_singleton.mp hnext
    exact hasks
  | fail | acquire | take | complete | abandon | dropGuard | releaseOne =>
    obtain rfl := Multiset.mem_singleton.mp hnext
    cases hasks
  | release | giveUp | finish => cases notMem_zero _ hnext

theorem Task.mem_token_of_asks (h : task.asks = some token) : token ∈ task.token := by
  cases task <;> cases h
  · exact Multiset.mem_singleton_self _
  · exact Multiset.mem_singleton_self _

theorem Placed.bearer (h : Placed world) {slot}
    (hexec : .execution teamId token isRoutine slot ∈ world.tasks) (htask : task ∈ world.tasks)
    (htoken : token ∈ task.token) : task = .execution teamId token isRoutine slot := by
  obtain ⟨rest, hrest⟩ := Multiset.exists_cons_of_mem hexec
  have hbearers := h.tokens
  rw [World.tokens, hrest, cons_bind] at hbearers
  rw [hrest] at htask
  refine (Multiset.mem_cons.mp htask).resolve_right ?_
  intro hother
  refine Multiset.disjoint_left.mp (Multiset.nodup_add.mp hbearers).2.2 (Multiset.mem_singleton_self token) ?_
  exact Multiset.mem_bind.mpr ⟨task, hother, htoken⟩

theorem Placed.not_asked (h : Placed world) {slot} (hexec : .execution teamId token isRoutine slot ∈ world.tasks) :
    token ∈ world.used ∧ ∀ task ∈ world.tasks, task.asks ≠ some token := by
  refine ⟨h.used token (Multiset.mem_bind.mpr ⟨_, hexec, Multiset.mem_singleton_self _⟩), ?_⟩
  intro task htask hasks
  rw [h.bearer hexec htask (Task.mem_token_of_asks hasks)] at hasks
  cases hasks

theorem Placed.execution_team (h : Placed world) {other routine slot place} (hleft : .execution teamId token isRoutine slot ∈ world.tasks)
    (hright : .execution other token routine place ∈ world.tasks) : teamId = other := by
  have heq := h.bearer hleft hright (Multiset.mem_singleton_self token)
  simp only [Task.execution.injEq] at heq
  exact heq.1.symm

theorem Decided.cancel (h : Decided events world) (hplaced : Placed world) (hregistered : Registered world)
    (teamId spareRoutine) {tasks}
    (hasks : ∀ task ∈ tasks, ∀ token, task.asks = some token → ∃ earlier ∈ world.tasks, earlier.asks = some token) :
    Decided (events ++ [.cancelled (world.state.cancel teamId spareRoutine).2])
      { world with state := (world.state.cancel teamId spareRoutine).1, tasks := tasks } := by
  rcases world.state.cancel_cases teamId spareRoutine with hsame | ⟨active, hactive, hcancel⟩
  · rw [hsame]
    exact h.quiet rfl ⟨List.Subset.refl _, (fun task htask token htoken => .inl (hasks task htask token htoken)),
      fun _ found hfound => .inl ⟨found, hfound, rfl, id⟩⟩
  · rw [hcancel]
    obtain ⟨slot, hexec⟩ := hregistered.holds teamId active hactive
    obtain ⟨hgiven, hunasked⟩ := hplaced.not_asked hexec
    refine h.step ⟨List.Subset.refl _, (fun task htask token htoken => .inl (hasks task htask token htoken)),
      ?_⟩ ?_ ?_ (fun _ _ hran => nomatch hran)
    · intro other found hfound
      rcases Table.lookup_insert_eq_some.mp hfound with ⟨rfl, rfl⟩ | ⟨-, hold⟩
      · exact .inl ⟨active, hactive, rfl, fun _ => rfl⟩
      · exact .inl ⟨found, hold, rfl, id⟩
    · rintro token ⟨⟩
      refine ⟨hgiven, ?_⟩
      intro task htask htoken
      obtain ⟨earlier, hearlier, hsame⟩ := hasks task htask _ htoken
      exact hunasked earlier hearlier hsame
    · rintro token ⟨⟩
      refine ⟨fun hcommitted => h.committed _ hcommitted teamId active hactive rfl, ?_⟩
      intro other found hfound hsame
      rcases Table.lookup_insert_eq_some.mp hfound with ⟨-, rfl⟩ | ⟨hne, hold⟩
      · rfl
      -- the token is that of one execution, so of one Team
      · obtain ⟨place, hplace⟩ := hregistered.holds other found hold
        rw [hsame] at hplace
        exact absurd (hplaced.execution_team hplace hexec) hne

end

variable {events : List Event} {event : Event} {world next : World}

structure Sound (events : List Event) (world : World) : Prop where
  placed : Placed world
  registered : Registered world
  drains : Drains world
  decided : Decided events world

theorem Sound.start (limit) : Sound [] (World.start limit) where
  placed := ⟨Interned.nil, Multiset.nodup_zero, Multiset.nodup_zero, fun _ htoken => nomatch htoken⟩
  registered := ⟨(fun _ _ hlookup => nomatch hlookup), fun _ hlookup => nomatch hlookup⟩
  drains := ⟨rfl, fun _ htask => nomatch htask⟩
  decided :=
    { named := fun _ hevent => nomatch hevent
      cancelled := fun _ hevent => nomatch hevent
      committed := fun _ hevent => nomatch hevent
      once := by
        intro earlier event later hsplit
        simp at hsplit }

/-- A new task that asks for its Team's slot begins no execution and no drain. -/
theorem Sound.slot (h : Sound events world) {used}
    (hrefs : task.refs = {(teamId, (world.slot teamId).2)}) (hheld : task.held = 0)
    (htoken : (task.token + world.tokens).Nodup) (hused : world.used ⊆ used)
    (hown : ∀ token ∈ task.token, token ∈ used ∧ token ∉ world.used) (hdrain : task.isDrain = false) :
    Sound (events ++ [.quiet]) { (world.slot teamId).1 with used := used, tasks := task ::ₘ world.tasks } where
  placed := h.placed.slot hrefs hheld htoken hused fun token hmem => (hown token hmem).1
  registered := h.registered.same rfl rfl fun _ _ _ _ hexec => Multiset.mem_cons_of_mem hexec
  drains := by
    have hnone : ∀ other bearer isRoutine slot, task ≠ .execution other bearer isRoutine slot := by
      rintro other bearer isRoutine slot rfl
      exact Multiset.singleton_ne_zero _ hheld
    refine ⟨?_, ?_⟩
    · change ((task ::ₘ world.tasks).map fun task => task.isDrain.toNat).sum = _
      rw [Multiset.map_cons, Multiset.sum_cons, hdrain, Bool.toNat_false, zero_add]
      exact h.drains.count
    · intro part hpart slots hslots other bearer isRoutine slot hexec
      have hearlier := (Multiset.mem_cons.mp hexec).resolve_left (hnone _ _ _ _).symm
      rcases Multiset.mem_cons.mp hpart with rfl | hold
      · cases (Task.awaits_eq_none hdrain).symm.trans hslots
      · exact h.drains.awaited part hold slots hslots _ _ _ _ hearlier
  decided := by
    refine h.decided.quiet rfl ⟨hused, ?_, fun _ active hactive => .inl ⟨active, hactive, rfl, id⟩⟩
    intro part hpart token hasks
    rcases Multiset.mem_cons.mp hpart with rfl | hold
    · exact .inr (hown token (Task.mem_token_of_asks hasks)).2
    · exact .inl ⟨part, hold, hasks⟩

theorem Sound.move (h : Sound events world) (htasks : world.tasks = task ::ₘ rest)
    (hmoves : task.Moves world.Free after) : Sound (events ++ [.quiet]) { world with tasks := after + rest } where
  placed := h.placed.move htasks hmoves
  registered := by
    refine h.registered.same rfl rfl ?_
    intro teamId token isRoutine slot hexec
    exact mem_add.mpr (.inr (World.execution_kept htasks (fun _ _ _ _ => hmoves.execution.1) _ _ _ _ hexec))
  drains := h.drains.replace htasks rfl hmoves.isDrain (fun _ _ _ _ => hmoves.execution.2) hmoves.awaits
  decided := h.decided.quiet rfl (.replace htasks (fun _ hafter _ => hmoves.asks hafter) fun _ _ => id)

/-- A step of one task under the guard that references and holds no more than it did. -/
theorem Placed.replace (h : Placed world) (htasks : world.tasks = task ::ₘ rest)
    (hslots : state.slots = world.state.slots) (hrefs : after.bind Task.refs ≤ task.refs)
    (hheld : after.bind Task.held ≤ task.held) (htokens : after.bind Task.token ≤ task.token)
    {limit} : Placed ⟨state, limit, world.next, world.used, after + rest⟩ := by
  refine h.mono hslots rfl rfl ?_ ?_ ?_
  · rw [World.refs, World.refs, htasks, add_bind, cons_bind]
    exact add_le_add_left hrefs _
  · rw [World.held, World.held, htasks, add_bind, cons_bind]
    exact add_le_add_left hheld _
  · rw [World.tokens, World.tokens, htasks, add_bind, cons_bind]
    exact add_le_add_left htokens _

theorem Sound.refuse (h : Sound events world) {kind}
    (htasks : world.tasks = .refused teamId kind ::ₘ rest) (hquiet : event.decides = none) :
    Sound (events ++ [event]) { world with state := (world.state.refuseHeld teamId kind).1, tasks := rest } := by
  have hstate : (world.state.refuseHeld teamId kind).1.slots = world.state.slots ∧
      (world.state.refuseHeld teamId kind).1.closed = world.state.closed ∧
      (world.state.refuseHeld teamId kind).1.active = world.state.active := by
    rcases world.state.refuseHeld_cases teamId kind with hsame | ⟨active, -, -, hstate⟩
    · rw [hsame]
      exact ⟨rfl, rfl, rfl⟩
    · rw [hstate]
      exact ⟨rfl, rfl, rfl⟩
  have hregistered := h.registered.refuse htasks
  rw [← zero_add rest] at hregistered ⊢
  refine ⟨?_, hregistered, ?_, ?_⟩
  · exact h.placed.replace htasks hstate.1 (Multiset.zero_le _) (Multiset.zero_le _) (Multiset.zero_le _)
  · exact h.drains.replace htasks hstate.2.1 rfl (fun _ _ _ _ => notMem_zero _)
      fun _ hpart => absurd hpart (notMem_zero _)
  · refine h.decided.quiet hquiet (.replace htasks (fun _ hpart => absurd hpart (notMem_zero _)) ?_)
    rw [hstate.2.2]
    exact fun _ _ => id

theorem Sound.register (h : Sound events world) {kind slot}
    (htasks : world.tasks = .locked teamId kind token slot ::ₘ rest)
    (hregister : world.state.admission teamId world.limit kind token = .ok state) :
    Sound (events ++ [.admitted teamId kind token])
      { world with state := state, tasks := .execution teamId token kind.routineId.isSome slot ::ₘ rest } := by
  obtain ⟨hopen, hclosed, hslots, hactive, -, -⟩ := State.admission_cases hregister
  refine ⟨?_, h.registered.register htasks hregister, h.drains.register htasks hopen hclosed, ?_⟩
  · rw [← singleton_add]
    exact h.placed.replace htasks hslots (by simp [Task.refs]) (by simp [Task.held]) (by simp [Task.token])
  · refine h.decided.quiet rfl ⟨List.Subset.refl _, ?_, ?_⟩
    · intro part hpart bearer hasks
      rcases Multiset.mem_cons.mp hpart with rfl | hrest
      · cases hasks
      · exact .inl ⟨part, htasks ▸ Multiset.mem_cons_of_mem hrest, hasks⟩
    · intro other active hlookup
      rw [show state.active = _ from hactive] at hlookup
      rcases Table.lookup_insert_eq_some.mp hlookup with ⟨-, rfl⟩ | ⟨-, hold⟩
      · exact .inr ⟨_, htasks ▸ Multiset.mem_cons_self _ _, rfl⟩
      · exact .inl ⟨active, hold, rfl, id⟩

theorem Sound.releasing (h : Sound events world) {slot} (htasks : world.tasks = task ::ₘ rest)
    (hrefs : task.refs = {(teamId, slot)}) (hheld : task.held = {(teamId, slot)})
    (hdrain : task.isDrain = false) (hslots : state.slots = world.state.slots)
    (hclosed : state.closed = world.state.closed) (hquiet : event.decides = none)
    (hregistered : Registered { world with state := state, tasks := .releasing teamId slot ::ₘ rest })
    (hactive : ∀ other active, state.active.lookup other = some active →
      world.state.active.lookup other = some active) :
    Sound (events ++ [event]) { world with state := state, tasks := .releasing teamId slot ::ₘ rest } := by
  rw [← singleton_add] at hregistered ⊢
  refine ⟨?_, hregistered, ?_, h.decided.quiet hquiet (.replace htasks ?_ hactive)⟩
  · refine h.placed.replace htasks hslots ?_ ?_ (Multiset.zero_le _)
    · rw [Multiset.singleton_bind, hrefs]
      exact le_rfl
    · rw [Multiset.singleton_bind, hheld]
      exact le_rfl
  · refine h.drains.replace htasks hclosed (by rw [hdrain]; rfl) (by simp) ?_
    intro part hpart slots hslots
    obtain rfl := Multiset.mem_singleton.mp hpart
    cases hslots
  · intro part hpart token hasks
    obtain rfl := Multiset.mem_singleton.mp hpart
    cases hasks

theorem Sound.commit {ε α} {before : Except ε α} (h : Sound events world) {slot}
    (hexec : .execution teamId token isRoutine slot ∈ world.tasks)
    (hevent : (world.state.commit teamId token before).2.elim (event = .quiet)
      fun outcome => event = .ran token (succeeded outcome)) :
    Sound (events ++ [event]) { world with state := (world.state.commit teamId token before).1 } := by
  have hregistered := h.registered.commit teamId token before
  rcases world.state.commit_cases teamId token before with
    hsame | ⟨current, hcurrent, htoken, hlive, hran, hstate⟩
  · rw [hsame] at hevent hregistered ⊢
    obtain rfl : event = .quiet := hevent
    exact ⟨h.placed, hregistered, h.drains, h.decided.quiet rfl (.same fun _ _ => id)⟩
  · rw [hran] at hevent
    obtain rfl : event = .ran token (succeeded before) := hevent
    have hslots : (world.state.commit teamId token before).1.slots = world.state.slots ∧
        (world.state.commit teamId token before).1.closed = world.state.closed := by
      rw [hstate]
      split
      · exact ⟨rfl, rfl⟩
      · exact ⟨rfl, rfl⟩
    have hactive : ∀ other active, (world.state.commit teamId token before).1.active.lookup other = some active →
        world.state.active.lookup other = some active ∧ (succeeded before = true → other ≠ teamId) := by
      intro other active hlookup
      rw [hstate] at hlookup
      split at hlookup
      next =>
        obtain ⟨hne, hold⟩ := Table.lookup_erase_eq_some.mp hlookup
        exact ⟨hold, fun _ => hne⟩
      next hfailed => exact ⟨hlookup, fun hok => absurd hok hfailed⟩
    refine ⟨h.placed.mono hslots.1 rfl rfl le_rfl le_rfl le_rfl, hregistered, ⟨?_, h.drains.awaited⟩, ?_⟩
    · exact h.drains.count.trans (congrArg Bool.toNat hslots.2.symm)
    · refine h.decided.step (.same fun other active hlookup => (hactive other active hlookup).1) ?_
        (fun _ hcancelled => nomatch hcancelled) ?_
      · rintro bearer ⟨⟩
        exact h.placed.not_asked hexec
      · rintro bearer outcome ⟨⟩
        refine ⟨?_, ?_⟩
        · intro hcancelled
          cases hlive.symm.trans (h.decided.cancelled _ hcancelled teamId current hcurrent htoken)
        · intro hok other active hlookup hsame
          obtain ⟨hold, hne⟩ := hactive other active hlookup
          obtain ⟨place, hplace⟩ := h.registered.holds other active hold
          rw [hsame] at hplace
          exact hne hok (h.placed.execution_team hplace hexec)

theorem State.cancel_kept (state : State) (teamId spareRoutine) :
    (state.cancel teamId spareRoutine).1.slots = state.slots ∧
      (state.cancel teamId spareRoutine).1.closed = state.closed := by
  rcases state.cancel_cases teamId spareRoutine with hsame | ⟨active, -, hcancel⟩
  · rw [hsame]
    exact ⟨rfl, rfl⟩
  · rw [hcancel]
    exact ⟨rfl, rfl⟩

theorem Sound.drain (h : Sound events world) (halone : ∀ task ∈ world.tasks, task.isDrain = false) :
    Sound (events ++ [.quiet]) { world with
      state := world.state.drain.1
      tasks := .draining world.state.drain.2.1 world.state.drain.2.2 [] ::ₘ world.tasks } where
  placed := by
    refine ⟨⟨?_, h.placed.interned.distinct, h.placed.interned.bound⟩, ?_, ?_, ?_⟩
    · -- the drain's references are the table's own entries
      intro entry hentry
      change entry ∈ (Task.draining _ _ _ ::ₘ world.tasks).bind Task.refs at hentry
      rw [cons_bind] at hentry
      rcases mem_add.mp hentry with hnew | hold
      · rcases mem_add.mp hnew with hslot | hnone
        · obtain ⟨found, hfound, rfl⟩ := mem_map.mp (Multiset.mem_coe.mp hslot)
          exact Table.lookup_eq_some.mpr hfound
        · cases Multiset.mem_coe.mp hnone
      · exact h.placed.interned.current entry hold
    · change (((Task.draining _ _ [] ::ₘ world.tasks).bind Task.held).map Prod.fst).Nodup
      rw [cons_bind, show (Task.draining _ _ []).held = 0 from rfl, zero_add]
      exact h.placed.exclusive
    · change ((Task.draining _ _ [] ::ₘ world.tasks).bind Task.token).Nodup
      rw [cons_bind, show (Task.draining _ _ []).token = 0 from rfl, zero_add]
      exact h.placed.tokens
    · intro token htoken
      change token ∈ (Task.draining _ _ [] ::ₘ world.tasks).bind Task.token at htoken
      rw [cons_bind, show (Task.draining _ _ []).token = 0 from rfl, zero_add] at htoken
      exact h.placed.used token htoken
  registered := h.registered.same rfl rfl fun _ _ _ _ hexec => Multiset.mem_cons_of_mem hexec
  drains := Drains.drain h.placed halone
  decided := by
    refine h.decided.quiet rfl ⟨List.Subset.refl _, ?_, fun _ active hactive => .inl ⟨active, hactive, rfl, id⟩⟩
    intro part hpart token hasks
    rcases Multiset.mem_cons.mp hpart with rfl | hold
    · cases hasks
    · exact .inl ⟨part, hold, hasks⟩

theorem Sound.drainCancel (h : Sound events world) {running slots held}
    (htasks : world.tasks = .draining (teamId :: running) slots held ::ₘ rest) :
    Sound (events ++ [.cancelled (world.state.cancel teamId false).2])
      { world with state := (world.state.cancel teamId false).1, tasks := .draining running slots held ::ₘ rest } := by
  obtain ⟨hslots, hclosed⟩ := world.state.cancel_kept teamId false
  have hkept := World.execution_kept htasks (by simp)
  refine ⟨?_, (h.registered.cancel teamId false).same rfl rfl
    fun _ _ _ _ hexec => Multiset.mem_cons_of_mem (hkept _ _ _ _ hexec), ?_, ?_⟩
  · rw [← singleton_add]
    exact h.placed.replace htasks hslots (by simp [Task.refs]) (by simp [Task.held]) (by simp [Task.token])
  · rw [← singleton_add]
    refine h.drains.replace htasks hclosed rfl (by simp) ?_
    intro part hpart found hfound
    obtain rfl := Multiset.mem_singleton.mp hpart
    exact ⟨found, hfound, fun _ _ _ _ _ hentry => hentry⟩
  · refine h.decided.cancel h.placed h.registered teamId false ?_
    intro part hpart token hasks
    rcases Multiset.mem_cons.mp hpart with rfl | hold
    · cases hasks
    · exact ⟨part, htasks ▸ Multiset.mem_cons_of_mem hold, hasks⟩

theorem Sound.reopen (h : Sound events world) (htasks : world.tasks = .reopening [] ::ₘ rest) :
    Sound (events ++ [.quiet]) { world with state := { world.state with closed := false }, tasks := rest } := by
  refine ⟨?_, h.registered.same rfl rfl (World.execution_kept htasks (by simp)), ⟨?_, ?_⟩, ?_⟩
  · rw [← zero_add rest]
    refine h.placed.replace htasks (by rfl) ?_ ?_ ?_ <;> exact Multiset.zero_le _
  · -- the one drain there was is this one
    have hcount := h.drains.count
    rw [World.drains, htasks, Multiset.map_cons, Multiset.sum_cons] at hcount
    have hmost := world.state.closed.toNat_le
    have hone : (Task.reopening []).isDrain.toNat = 1 := rfl
    change (rest.map fun task => task.isDrain.toNat).sum = 0
    omega
  · intro task htask slots hslots other token isRoutine slot hexec
    refine h.drains.awaited task (htasks ▸ Multiset.mem_cons_of_mem htask) slots hslots other token isRoutine
      slot ?_
    rw [htasks]
    exact Multiset.mem_cons_of_mem hexec
  · rw [← zero_add rest]
    refine h.decided.quiet rfl (.replace htasks (fun _ hpart => absurd hpart (notMem_zero _)) ?_)
    exact fun _ _ => id

/-- Every step keeps the invariant. -/
theorem Sound.step (h : Sound events world) (hstep : Step world event next) : Sound (events ++ [event]) next := by
  cases hstep with
  | @ask teamId kind token hfresh =>
    refine h.slot rfl rfl ?_ (subset_cons_self _ _) ?_ rfl
    · refine Multiset.nodup_cons.mpr ⟨fun hmem => hfresh (h.placed.used token hmem), h.placed.tokens⟩
    · intro bearer hbearer
      obtain rfl := Multiset.mem_singleton.mp hbearer
      exact ⟨mem_cons_self, hfresh⟩
  | move htasks hmoves => exact h.move htasks hmoves
  | refuse htasks => exact h.refuse htasks rfl
  | register htasks hregister => exact h.register htasks hregister
  | @turnAway teamId kind token slot rest refusal htasks hregister =>
    refine h.releasing htasks rfl rfl rfl rfl rfl rfl ?_ fun _ _ hlookup => hlookup
    exact h.registered.same rfl rfl fun _ _ _ _ hexec =>
      Multiset.mem_cons_of_mem (World.execution_kept htasks (by simp) _ _ _ _ hexec)
  | cancel teamId spareRoutine =>
    obtain ⟨hslots, hclosed⟩ := world.state.cancel_kept teamId spareRoutine
    refine ⟨h.placed.mono hslots rfl rfl le_rfl le_rfl le_rfl, h.registered.cancel teamId spareRoutine,
      ⟨h.drains.count.trans (congrArg Bool.toNat hclosed.symm), h.drains.awaited⟩, ?_⟩
    exact h.decided.cancel h.placed h.registered teamId spareRoutine fun task htask _ hasks =>
      ⟨task, htask, hasks⟩
  | commit htask hran => exact h.commit htask (by rw [hran]; rfl)
  | commitLate htask hran => exact h.commit htask (by rw [hran]; rfl)
  | @drop teamId token isRoutine slot rest htasks now =>
    refine h.releasing htasks rfl rfl rfl rfl rfl rfl (h.registered.drop htasks now) ?_
    intro other active hlookup
    exact ((world.state.dropped_cases teamId token isRoutine now).1 other active hlookup).1
  | exclusive teamId =>
    refine h.slot rfl rfl ?_ (List.Subset.refl _) ?_ rfl
    · rw [show (Task.waiting teamId _).token = 0 from rfl, zero_add]
      exact h.placed.tokens
    · intro bearer hbearer
      cases notMem_zero _ hbearer
  | drain halone => exact h.drain halone
  | drainCancel htasks => exact h.drainCancel htasks
  | reopen htasks => exact h.reopen htasks
  | saveLimit limit =>
    exact ⟨h.placed.mono rfl rfl rfl le_rfl le_rfl le_rfl, h.registered.same rfl rfl fun _ _ _ _ => id,
      ⟨h.drains.count, h.drains.awaited⟩, h.decided.quiet rfl (.same fun _ _ => id)⟩
  | clearDemand teamId =>
    refine ⟨h.placed.mono rfl rfl rfl le_rfl le_rfl le_rfl, ?_, ⟨h.drains.count, h.drains.awaited⟩,
      h.decided.quiet rfl (.same ?_)⟩
    · refine h.registered.mono (fun _ active hactive => ⟨active, hactive, rfl, rfl⟩) ?_ fun _ _ _ _ => id
      intro other hwaiting
      exact (Table.lookup_erase_eq_some.mp hwaiting).2
    · exact fun _ _ => id

/-- In every world reached by any interleaving: each Team's slot has at most one holder and every
registered execution holds its own; a chat is admitted only below the current limit; while a drain's guard
is held no execution holds a slot and none is admitted; of a cancellation and a commit the first decides;
and who waits for a Team waits for a live Routine's execution. -/
theorem slots_exclusive_and_cancelled_once {limit : Nat} (hreached : Reaches (World.start limit) events world) :
    (world.held.map Prod.fst).Nodup ∧
      (∀ teamId active, world.state.active.lookup teamId = some active →
        ∃ slot, .execution teamId active.token active.routine.isSome slot ∈ world.tasks ∧
          (teamId, slot) ∈ world.held ∧ world.state.slots.lookup teamId = some slot) ∧
      (∀ next teamId kind token, Step world (.admitted teamId kind token) next →
        (kind = .chat → world.state.chatExecutions < world.limit) ∧ ∀ held, .drained held ∉ world.tasks) ∧
      (∀ held, .drained held ∈ world.tasks →
        ∀ teamId token isRoutine slot, .execution teamId token isRoutine slot ∉ world.tasks) ∧
      DecidedOnce events ∧
      ∀ teamId, world.state.demand.lookup teamId = some .waiting →
        ∃ token slot, .execution teamId token true slot ∈ world.tasks := by
  have hsound : Sound events world := by
    induction hreached with
    | refl => exact Sound.start limit
    | step _ hstep ih => exact ih.step hstep
  refine ⟨hsound.placed.exclusive, ?_, ?_, ?_, hsound.decided.once, hsound.registered.waits⟩
  · intro teamId active hactive
    obtain ⟨slot, hexec⟩ := hsound.registered.holds teamId active hactive
    have hheld := World.mem_held hexec (Multiset.mem_singleton_self (teamId, slot))
    exact ⟨slot, hexec, hheld, hsound.placed.interned.current _ (Multiset.subset_of_le world.held_le_refs hheld)⟩
  · intro next teamId kind token hstep
    cases hstep with
    | register htasks hregister =>
      obtain ⟨hopen, -, -, -, hlimit, -⟩ := State.admission_cases hregister
      refine ⟨hlimit, ?_⟩
      intro held hdrained
      cases hsound.drains.none_of_open hopen _ hdrained
  · intro held hdrained teamId token isRoutine slot hexec
    cases hsound.drains.awaited _ hdrained [] rfl teamId token isRoutine slot hexec

/-- A chat turn of a Team is admitted, and its slot is held once. -/
theorem slots_exclusive_and_cancelled_once_chat :
    ∃ events world, Reaches (World.start 1) events world ∧
      world.state.active.lookup "t" = some ⟨"k", none, false⟩ ∧ (world.held.map Prod.fst).Nodup ∧
      DecidedOnce events := by
  let asked : World := ⟨(State.slot {} "t" (fun _ => false) 0).1, 1, 1, ["k"], {.asking "t" .chat "k" 0}⟩
  have hask : Step (World.start 1) .quiet asked := .ask "t" .chat (by decide)
  let locked : World := { asked with tasks := {.locked "t" .chat "k" 0} + 0 }
  have hlock : Step asked .quiet locked := by
    refine .move (show asked.tasks = .asking "t" .chat "k" 0 ::ₘ 0 from rfl) (.lock ?_)
    intro entry hentry
    cases notMem_zero _ hentry
  have hregister := Step.register (show locked.tasks = .locked "t" .chat "k" 0 ::ₘ 0 from rfl)
    (show locked.state.admission "t" 1 .chat "k" = .ok _ from rfl)
  have hreached := ((Reaches.refl.step hask).step hlock).step hregister
  exact ⟨_, _, hreached, rfl, (slots_exclusive_and_cancelled_once hreached).1,
    (slots_exclusive_and_cancelled_once hreached).2.2.2.2.1⟩

end ShimpzTeams.Coordination
