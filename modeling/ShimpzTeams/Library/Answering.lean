import Mathlib.Data.List.Basic

/-!
# Machines that answer

A machine takes a call in a state to the next state and an answer. A run is a
list of calls. What each call keeps, the whole run keeps.
-/

namespace ShimpzTeams.Library.Answering

variable {σ α ω : Type} (step : σ → α → σ × ω)

def after (state : σ) (calls : List α) : σ :=
  calls.foldl (fun state call => (step state call).1) state

variable {step} {state : σ}

@[simp]
theorem after_append (earlier later) :
    after step state (earlier ++ later) = after step (after step state earlier) later :=
  List.foldl_append

@[simp]
theorem after_singleton (call) : after step state [call] = (step state call).1 := rfl

/-- What every call allowed where it is made keeps, holds at each point of a run of allowed calls. -/
theorem after_take_invariant {allowed : σ → α → Prop} {holds : σ → Prop} {calls : List α} (hstart : holds state)
    (hstep : ∀ state call, holds state → allowed state call → holds (step state call).1)
    (hallowed : ∀ index call, calls[index]? = some call →
      allowed (after step state (calls.take index)) call) (index : Nat) :
    holds (after step state (calls.take index)) := by
  induction index with
  | zero => exact hstart
  | succ index ih =>
    rw [List.take_add_one, after_append]
    cases hcall : calls[index]? with
    | none => exact ih
    | some call => exact hstep _ call ih (hallowed index call hcall)

theorem after_invariant (holds : σ → Prop) (hstart : holds state)
    (hstep : ∀ state call, holds state → holds (step state call).1) (calls) : holds (after step state calls) := by
  induction calls generalizing state with
  | nil => exact hstart
  | cons call rest ih => exact ih (hstep state call hstart)

end ShimpzTeams.Library.Answering
