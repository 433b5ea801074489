import Mathlib.Data.List.Induction

/-!
# Machines that refuse

A machine applies a call to a state or refuses it, and a refused call leaves the
state as it was. A run is a list of calls. What one applied call preserves, a
whole run preserves.
-/

namespace ShimpzTeams.Library

variable {σ α ε : Type} (apply : σ → α → Except ε σ)

def step (state : σ) (call : α) : σ :=
  match apply state call with
  | .ok next => next
  | .error _ => state

def runFrom (state : σ) (calls : List α) : σ := calls.foldl (step apply) state

variable {apply} {state next : σ} {call : α} {calls : List α}

theorem step_ok (h : apply state call = .ok next) : step apply state call = next := by
  simp [step, h]

theorem step_error {refusal} (h : apply state call = .error refusal) : step apply state call = state := by
  simp [step, h]

theorem step_cases (apply : σ → α → Except ε σ) (state call) :
    step apply state call = state ∨ apply state call = .ok (step apply state call) := by
  cases h : apply state call with
  | ok next => exact .inr (by rw [step_ok h])
  | error refusal => exact .inl (step_error h)

@[simp]
theorem runFrom_nil : runFrom apply state [] = state := rfl

@[simp]
theorem runFrom_cons :
    runFrom apply state (call :: calls) = runFrom apply (step apply state call) calls := rfl

@[simp]
theorem runFrom_append (earlier later) :
    runFrom apply state (earlier ++ later) = runFrom apply (runFrom apply state earlier) later :=
  List.foldl_append

/-- A property of the calls so far and of their state, kept by each applied and each refused call,
holds of every run whose calls meet a condition that runs cut short meet too. -/
theorem run_induction {admits : List α → Prop} {holds : List α → σ → Prop}
    (hcut : ∀ calls call, admits (calls ++ [call]) → admits calls) (hstart : holds [] state)
    (hrefused : ∀ calls call refusal, admits (calls ++ [call]) → holds calls (runFrom apply state calls) →
      apply (runFrom apply state calls) call = .error refusal →
      holds (calls ++ [call]) (runFrom apply state calls)) (happlied : ∀ calls call next, admits (calls ++ [call]) →
      holds calls (runFrom apply state calls) →
      apply (runFrom apply state calls) call = .ok next → holds (calls ++ [call]) next)
    (calls : List α) (hadmits : admits calls) : holds calls (runFrom apply state calls) := by
  induction calls using List.reverseRecOn with
  | nil => exact hstart
  | append_singleton calls call ih =>
    have hbefore := ih (hcut calls call hadmits)
    simp only [runFrom_append, runFrom_cons, runFrom_nil]
    cases h : apply (runFrom apply state calls) call with
    | ok next =>
      rw [step_ok h]
      exact happlied calls call next hadmits hbefore h
    | error refusal =>
      rw [step_error h]
      exact hrefused calls call refusal hadmits hbefore h

theorem run_invariant_with {known holds : σ → Prop} (hknown : ∀ calls, known (runFrom apply state calls))
    (happlied : ∀ state call next, known state → holds state → apply state call = .ok next →
      holds next) (hstart : holds state) (calls : List α) : holds (runFrom apply state calls) :=
  @run_induction _ _ _ apply state (fun _ => True) (fun _ state => holds state) (fun _ _ _ => trivial) hstart
    (fun _ _ _ _ hholds _ => hholds) (fun calls _ _ _ => happlied _ _ _ (hknown calls)) calls trivial

theorem run_invariant {holds : σ → Prop}
    (happlied : ∀ state call next, holds state → apply state call = .ok next → holds next) (hstart : holds state)
    (calls) : holds (runFrom apply state calls) :=
  @run_invariant_with _ _ _ apply state (fun _ => True) holds (fun _ => trivial)
    (fun state call next _ => happlied state call next) hstart calls

variable (apply)

def applied : σ → List α → List (σ × α)
  | _, [] => []
  | state, call :: calls =>
    match apply state call with
    | .ok next => (state, call) :: applied next calls
    | .error _ => applied state calls

variable {apply}

theorem applied_append (state earlier later) : applied apply state (earlier ++ later) =
      applied apply state earlier ++ applied apply (runFrom apply state earlier) later := by
  induction earlier generalizing state with
  | nil => rfl
  | cons call rest ih =>
    cases h : apply state call with
    | ok next => simp [applied, h, ih, step]
    | error refusal => simp [applied, h, ih, step]

theorem applied_ok {item} (h : item ∈ applied apply state calls) : ∃ next, apply item.1 item.2 = .ok next := by
  induction calls generalizing state with
  | nil => cases h
  | cons call calls ih =>
    cases happly : apply state call with
    | error refusal =>
      simp only [applied, happly] at h
      exact ih h
    | ok next =>
      simp only [applied, happly, List.mem_cons] at h
      rcases h with rfl | hlater
      · exact ⟨next, happly⟩
      · exact ih hlater

theorem applied_take (state calls position) : applied apply state calls = applied apply state (calls.take position) ++
      applied apply (runFrom apply state (calls.take position)) (calls.drop position) := by
  rw [← applied_append, List.take_append_drop]

theorem applied_snoc_ok (h : apply (runFrom apply state calls) call = .ok next) :
    applied apply state (calls ++ [call]) = applied apply state calls ++ [(runFrom apply state calls, call)] := by
  simp [applied_append, applied, h]

theorem applied_snoc_error {refusal} (h : apply (runFrom apply state calls) call = .error refusal) :
    applied apply state (calls ++ [call]) = applied apply state calls := by
  simp [applied_append, applied, h]

/-- What admitted calls carry on as they are applied holds of all the applied calls of a run. -/
theorem applied_induction {admits : σ → α → Prop} {holds : List (σ × α) → σ → Prop} (hstart : holds [] state)
    (happlied : ∀ past state call next, admits state call → holds past state →
      apply state call = .ok next → holds (past ++ [(state, call)]) next)
    (calls) (hadmits : ∀ item ∈ applied apply state calls, admits item.1 item.2) :
    holds (applied apply state calls) (runFrom apply state calls) := by
  refine @run_induction _ _ _ apply state (fun calls => ∀ item ∈ applied apply state calls, admits item.1 item.2)
    (fun calls => holds (applied apply state calls)) ?_ hstart ?_ ?_ calls hadmits
  · intro calls call hall item hitem
    rw [applied_append] at hall
    exact hall item (List.mem_append_left _ hitem)
  · intro calls call refusal _ hholds h
    rwa [applied_snoc_error h]
  · intro calls call next hall hholds h
    rw [applied_snoc_ok h] at hall ⊢
    exact happlied _ _ _ _ (hall _ (List.mem_append_right _ List.mem_cons_self)) hholds h

end ShimpzTeams.Library
