import Mathlib.Data.List.Basic

/-!
# Programs over a state that may refuse, and programs that ask

What a program over a state changed before it refused stays changed, so a statement
about it speaks of the state in both endings. A dialogue asks questions, each with
answers of its own type, and ends in a value or a refusal. A run may be cut off at
any question, so what a rule asks of every exchange holds of a run that never ends
as well.
-/

namespace ShimpzTeams.Library

/-- A program that changes a state and returns a value, or refuses and leaves what it changed. -/
abbrev Effect (σ ε α : Type) := ExceptT ε (StateM σ) α

namespace Effect

variable {σ ε α β : Type} {returns : α → σ → Prop} {refuses : ε → σ → Prop} {state : σ}

def Ends (program : Effect σ ε α) (returns : α → σ → Prop) (refuses : ε → σ → Prop) (state : σ) : Prop :=
  match program.run state with
  | (.ok value, after) => returns value after
  | (.error refusal, after) => refuses refusal after

variable {program : Effect σ ε α}

theorem Ends.returned {value after}
    (h : Ends program returns refuses state) (hrun : program.run state = (.ok value, after)) : returns value after := by
  unfold Ends at h
  rw [hrun] at h
  exact h

theorem Ends.refused {program refusal after}
    (h : Ends program returns refuses state) (hrun : program.run state = (.error refusal, after)) :
    refuses refusal after := by
  unfold Ends at h
  rw [hrun] at h
  exact h

theorem Ends.mono {returns' refuses'}
    (h : Ends program returns refuses state) (hreturns : ∀ value after, returns value after → returns' value after)
    (hrefuses : ∀ refusal after, refuses refusal after → refuses' refusal after) :
    Ends program returns' refuses' state := by
  unfold Ends at h ⊢
  split
  · next value after hrun => exact hreturns value after (by rw [hrun] at h; exact h)
  · next refusal after hrun => exact hrefuses refusal after (by rw [hrun] at h; exact h)

theorem ends_pure {value} (h : returns value state) : Ends (pure value) returns refuses state := h

theorem ends_throw {refusal} (h : refuses refusal state) :
    Ends (throw refusal : Effect σ ε α) returns refuses state := h

theorem run_bind (program) (next : α → Effect σ ε β) (state) :
    (program >>= next).run state = ExceptT.bindCont next (program.run state).1 (program.run state).2 := rfl

theorem ends_bind {next} {returns : β → σ → Prop}
    (h : Ends program (fun value after => Ends (next value) returns refuses after) refuses state) :
    Ends (program >>= next) returns refuses state := by
  unfold Ends at h ⊢
  rw [run_bind]
  rcases hrun : program.run state with ⟨result, after⟩
  rw [hrun] at h
  cases result with
  | ok value => exact h
  | error refusal => exact h

theorem ends_get_bind {next} {returns : β → σ → Prop}
    (h : Ends (next state) returns refuses state) : Ends (get >>= next) returns refuses state :=
  ends_bind h

theorem ends_modify {change returns} (h : returns ⟨⟩ (change state)) :
    Ends (modify change : Effect σ ε PUnit) returns refuses state := h

theorem ends_tryCatch {handler}
    (h : Ends program returns (fun refusal after => Ends (handler refusal) returns refuses after) state) :
    Ends (tryCatch program handler) returns refuses state := by
  have hrun : (tryCatch program handler).run state = match program.run state with
      | (.ok value, after) => (.ok value, after)
      | (.error refusal, after) => (handler refusal).run after := by
    change (ExceptT.tryCatch program handler).run state = _
    unfold ExceptT.tryCatch
    change (match (program.run state).1 with
      | .ok value => pure (.ok value)
      | .error refusal => handler refusal : StateM σ (Except ε α)) (program.run state).2 = _
    rcases program.run state with ⟨result, after⟩
    cases result <;> rfl
  unfold Ends at h ⊢
  rw [hrun]
  rcases hresult : program.run state with ⟨result, after⟩
  rw [hresult] at h
  cases result with
  | ok value => exact h
  | error refusal => exact h

end Effect

/-- A program that asks questions and ends in a value or a refusal. -/
inductive Dialogue {Question : Type} (Answer : Question → Type) (ε α : Type) where
  | done (result : Except ε α)
  | ask (question : Question) (next : Answer question → Dialogue Answer ε α)

structure Exchange {Question : Type} (Answer : Question → Type) where
  question : Question
  answer : Answer question

namespace Dialogue

variable {Question : Type} {Answer : Question → Type} {ε α β : Type}

def bind : Dialogue Answer ε α → (α → Dialogue Answer ε β) → Dialogue Answer ε β
  | .done (.ok value), next => next value
  | .done (.error refusal), _ => .done (.error refusal)
  | .ask question following, next => .ask question fun answer => (following answer).bind next

instance : Monad (Dialogue Answer ε) where
  pure value := .done (.ok value)
  bind := bind

def asking (question : Question) : Dialogue Answer ε (Answer question) :=
  .ask question fun answer => .done (.ok answer)

/-- A dialogue that asks nothing more. -/
def returning (result : Except ε α) : Dialogue Answer ε α := .done result

def refusing (refusal : ε) : Dialogue Answer ε α := .done (.error refusal)

inductive Run : Dialogue Answer ε α → List (Exchange Answer) → Option (Except ε α) → Prop
  | cut (dialogue : Dialogue Answer ε α) : Run dialogue [] none
  | done (result : Except ε α) : Run (.done result) [] (some result)
  | ask {question next answer exchanges ending} (hrest : Run (next answer) exchanges ending) :
      Run (.ask question next) (⟨question, answer⟩ :: exchanges) ending

variable {dialogue : Dialogue Answer ε α}

section

variable {σ : Type} (observe : σ → Exchange Answer → σ) (rule : σ → Exchange Answer → Prop)

def Along : σ → List (Exchange Answer) → Prop
  | _, [] => True
  | state, exchange :: rest => rule state exchange ∧ Along (observe state exchange) rest

/-- Whatever the answers, every exchange obeys the rule, and the end is as promised. -/
def Keeps (promise : σ → Except ε α → Prop) : σ → Dialogue Answer ε α → Prop
  | state, .done result => promise state result
  | state, .ask question next => ∀ answer, rule state ⟨question, answer⟩ ∧
      Keeps promise (observe state ⟨question, answer⟩) (next answer)

variable {observe rule} {state : σ}

theorem Keeps.run {promise exchanges ending} (hkeeps : Keeps observe rule promise state dialogue)
    (hrun : Run dialogue exchanges ending) : Along observe rule state exchanges ∧
      ∀ result, ending = some result → promise (exchanges.foldl observe state) result := by
  induction hrun generalizing state with
  | cut =>
    refine ⟨trivial, ?_⟩
    intro result hresult
    cases hresult
  | done result =>
    refine ⟨trivial, ?_⟩
    rintro _ ⟨rfl⟩
    exact hkeeps
  | @ask question next answer exchanges ending _ ih =>
    obtain ⟨hrule, hnext⟩ := hkeeps answer
    obtain ⟨halong, hend⟩ := ih hnext
    exact ⟨⟨hrule, halong⟩, hend⟩

theorem Keeps.mono {promise weaker} (hkeeps : Keeps observe rule promise state dialogue)
    (hweaker : ∀ state result, promise state result → weaker state result) :
    Keeps observe rule weaker state dialogue := by
  induction dialogue generalizing state with
  | done result => exact hweaker state result hkeeps
  | ask question next ih =>
    intro answer
    obtain ⟨hrule, hnext⟩ := hkeeps answer
    exact ⟨hrule, ih answer hnext⟩

theorem Keeps.bind {promise final} {next : α → Dialogue Answer ε β} (hkeeps : Keeps observe rule promise state dialogue)
    (hok : ∀ state value, promise state (.ok value) → Keeps observe rule final state (next value))
    (herror : ∀ state refusal, promise state (.error refusal) → final state (.error refusal)) :
    Keeps observe rule final state (dialogue >>= next) := by
  induction dialogue generalizing state with
  | done result =>
    cases result with
    | ok value => exact hok state value hkeeps
    | error refusal => exact herror state refusal hkeeps
  | ask question following ih =>
    intro answer
    obtain ⟨hrule, hnext⟩ := hkeeps answer
    exact ⟨hrule, ih answer hnext⟩

end

def play (reply : Nat → (question : Question) → Answer question) :
    Nat → Dialogue Answer ε α → List (Exchange Answer) × Except ε α
  | _, .done result => ([], result)
  | count, .ask question next =>
    let rest := play reply (count + 1) (next (reply count question))
    (⟨question, reply count question⟩ :: rest.1, rest.2)

theorem play_run (reply count) (dialogue : Dialogue Answer ε α) :
    Run dialogue (play reply count dialogue).1 (some (play reply count dialogue).2) := by
  induction dialogue generalizing count with
  | done result => exact .done result
  | ask question next ih => exact .ask (ih _ (count + 1))

end Dialogue

end ShimpzTeams.Library
