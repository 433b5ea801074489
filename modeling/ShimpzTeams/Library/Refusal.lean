import Mathlib.Data.List.Forall2

/-!
# Computations that refuse

When a computation that may refuse returns a value, each of its parts returned.
When it refuses, one of its parts refused. A checked machine operation returns,
refuses (`?` on an absent value), or breaks: it panics or overflows.
-/

namespace ShimpzTeams.Library

open List

section

variable {ε α β : Type} {computation : Except ε α} {result : β}

variable {next : α → Except ε β}

theorem bind_eq_ok :
    (computation >>= next) = .ok result ↔ ∃ value, computation = .ok value ∧ next value = .ok result := by
  cases computation with
  | error refusal => simp [bind, Except.bind]
  | ok value => simp [bind, Except.bind]

theorem map_eq_ok {f} : computation.map f = .ok result ↔ ∃ value, computation = .ok value ∧ f value = result := by
  cases computation with
  | error refusal => simp [Except.map]
  | ok value => simp [Except.map]

theorem mapError_eq_ok {f : ε → β} {value} : computation.mapError f = .ok value ↔ computation = .ok value := by
  cases computation with
  | error refusal => simp [Except.mapError]
  | ok found => simp [Except.mapError]

theorem ok_bind (value) (next : α → Except ε β) : (Except.ok value >>= next) = next value := rfl

theorem map_ok (f : α → β) (value) : (Except.ok value : Except ε α).map f = .ok (f value) := rfl

/-- A computation that is seen to return has a result. -/
theorem exists_ok (h : computation.isOk = true) : ∃ value, computation = .ok value := by
  cases computation with
  | error refusal => cases h
  | ok value => exact ⟨value, rfl⟩

/-- A guard that refuses: what follows it returned, and the guard did not hold. -/
theorem guard_eq_ok {refused} [Decidable refused] {refusal} {next : Except ε β} :
    (if refused then .error refusal else next) = .ok result ↔ ¬refused ∧ next = .ok result := by
  by_cases h : refused <;> simp [h]

variable {items : List α}

theorem forM_eq_ok {check : α → Except ε PUnit} : items.forM check = .ok () ↔ ∀ item ∈ items, check item = .ok () := by
  induction items with
  | nil => simp [pure, Except.pure]
  | cons item rest ih =>
    rw [forall_mem_cons, ← ih]
    constructor
    · intro h
      obtain ⟨done, hitem, hrest⟩ := bind_eq_ok.mp h
      exact ⟨hitem, hrest⟩
    · rintro ⟨hitem, hrest⟩
      exact bind_eq_ok.mpr ⟨(), hitem, hrest⟩

variable {f : α → Except ε β} {results : List β}

theorem mapM_eq_ok :
    items.mapM f = .ok results ↔ List.Forall₂ (fun item result => f item = .ok result) items results := by
  induction items generalizing results with
  | nil => simp [pure, Except.pure, eq_comm]
  | cons item rest ih =>
    rw [mapM_cons, List.forall₂_cons_left_iff]
    constructor
    · intro h
      obtain ⟨result, hitem, h⟩ := bind_eq_ok.mp h
      obtain ⟨later, hrest, h⟩ := bind_eq_ok.mp h
      exact ⟨result, later, hitem, ih.mp hrest, (Except.ok.inj h).symm⟩
    · rintro ⟨result, later, hitem, hrest, rfl⟩
      exact bind_eq_ok.mpr ⟨result, hitem, bind_eq_ok.mpr ⟨later, ih.mpr hrest, rfl⟩⟩

theorem eq_map_of_mapM {g} (h : items.mapM f = .ok results)
    (hresult : ∀ item ∈ items, ∀ result, f item = .ok result → result = g item) : results = items.map g := by
  have hrelated := mapM_eq_ok.mp h
  clear h
  induction hrelated with
  | nil => rfl
  | @cons first result rest results hfirst hrest ih =>
    rw [map_cons, hresult first mem_cons_self result hfirst,
      ih fun item hitem => hresult item (mem_cons_of_mem first hitem)]

theorem mapM_eq_map {g} (h : ∀ item ∈ items, f item = .ok (g item)) : items.mapM f = .ok (items.map g) := by
  rw [mapM_eq_ok, List.forall₂_map_right_iff, List.forall₂_same]
  exact h

theorem exists_of_mapM_error {refusal}
    (h : items.mapM f = .error refusal) : ∃ item ∈ items, f item = .error refusal := by
  induction items with
  | nil => cases h
  | cons item rest ih =>
    rw [mapM_cons] at h
    cases hitem : f item with
    | error other =>
      rw [hitem] at h
      exact ⟨item, mem_cons_self, hitem.trans (congrArg Except.error (Except.error.inj h))⟩
    | ok result =>
      rw [hitem, ok_bind] at h
      cases hrest : rest.mapM f with
      | error other =>
        rw [hrest] at h
        obtain ⟨found, hfound, hrefused⟩ := ih (hrest.trans (congrArg Except.error (Except.error.inj h)))
        exact ⟨found, mem_cons_of_mem item hfound, hrefused⟩
      | ok results =>
        rw [hrest] at h
        cases h

def Spares (refusal : ε) (computation : Except ε α) : Prop := computation ≠ .error refusal

variable {refusal : ε}

theorem spares_ok (value) : Spares refusal (.ok value : Except ε α) := by
  intro h
  cases h

def Blames (refusal : ε) (cause : Prop) (computation : Except ε α) : Prop :=
  computation = .error refusal → cause

theorem bind_eq_error : (computation >>= next) = .error refusal ↔
      computation = .error refusal ∨ ∃ value, computation = .ok value ∧ next value = .error refusal := by
  cases computation with
  | error other => simp [bind, Except.bind]
  | ok value => simp [bind, Except.bind]

theorem map_eq_error {f : α → β} : computation.map f = .error refusal ↔ computation = .error refusal := by
  cases computation with
  | error other => simp [Except.map]
  | ok value => simp [Except.map]

theorem Spares.bind (h : Spares refusal computation)
    (hnext : ∀ value, computation = .ok value → Spares refusal (next value)) :
    Spares refusal (computation >>= next) := by
  intro hrefused
  rcases bind_eq_error.mp hrefused with hrefused | ⟨value, hvalue, hrefused⟩
  · exact h hrefused
  · exact hnext value hvalue hrefused

end

inductive Stop where
  | refused (reason : String)
  | broken
  deriving DecidableEq

abbrev Checked := Except Stop

/-- What `?` does on an absent value. -/
abbrev absent : Stop := .refused ""

namespace Checked

variable {α : Type}

def found (stop : Stop) : Option α → Checked α
  | some value => .ok value
  | none => .error stop

def sub (left right : Nat) : Checked Nat := if left < right then .error .broken else .ok (left - right)

theorem sub_of_le {left right} (h : right ≤ left) : sub left right = .ok (left - right) :=
  if_neg (Nat.not_lt.mpr h)

end Checked

end ShimpzTeams.Library
