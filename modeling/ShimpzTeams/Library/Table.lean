import Mathlib.Data.List.AList
import Mathlib.Data.Multiset.Filter

/-!
# Tables

A hash map as an association list without repeated keys, with the two operations
of one that Mathlib's lists lack: keeping what a test keeps, and entering a
fresh handle for a key that has none. A table of handles is sound for the
references held to them while every reference is to the key's current handle.
-/

namespace ShimpzTeams.Library

/-- A hash map. -/
abbrev Table (κ α : Type) := AList fun _ : κ => α

namespace Table

variable {κ α : Type}

def retain (table : Table κ α) (keep : κ → α → Bool) : Table κ α where
  entries := table.entries.filter fun entry => keep entry.1 entry.2
  nodupKeys := table.nodupKeys.sublist List.filter_sublist

theorem length_retain_le {keep} {table : Table κ α} : (table.retain keep).entries.length ≤ table.entries.length :=
  List.length_filter_le _ _

variable [DecidableEq κ] {table : Table κ α} {key other : κ} {value : α}

theorem lookup_eq_some : table.lookup key = some value ↔ ⟨key, value⟩ ∈ table.entries :=
  AList.mem_lookup_iff

theorem lookup_retain {keep} :
    (table.retain keep).lookup key = some value ↔ table.lookup key = some value ∧ keep key value = true := by
  simp only [lookup_eq_some, retain, List.mem_filter]

theorem length_insert_of_none (h : table.lookup key = none) :
    (table.insert key value).entries.length = table.entries.length + 1 := by
  rw [AList.entries_insert_of_notMem (AList.lookup_eq_none.mp h), List.length_cons]

theorem lookup_insert_eq_some {inserted} : (table.insert other inserted).lookup key = some value ↔
      key = other ∧ inserted = value ∨ key ≠ other ∧ table.lookup key = some value := by
  by_cases h : key = other
  · subst h
    simp [AList.lookup_insert]
  · simp [AList.lookup_insert_ne h, h]

theorem lookup_erase_eq_some :
    (table.erase other).lookup key = some value ↔ key ≠ other ∧ table.lookup key = some value := by
  by_cases h : key = other
  · subst h
    simp [AList.lookup_erase]
  · simp [AList.lookup_erase_ne h, h]

end Table

variable {κ : Type} [DecidableEq κ]

def intern (table : Table κ Nat) (next : Nat) (key : κ) : Table κ Nat × Nat :=
  match table.lookup key with
  | some handle => (table, handle)
  | none => (table.insert key next, next)

structure Interned (table : Table κ Nat) (next : Nat) (held : Multiset (κ × Nat)) : Prop where
  current : ∀ entry ∈ held, table.lookup entry.1 = some entry.2
  distinct : ∀ key other handle, table.lookup key = some handle → table.lookup other = some handle → key = other
  bound : ∀ key handle, table.lookup key = some handle → handle < next

variable {table : Table κ Nat} {next : Nat} {held : Multiset (κ × Nat)}

theorem Interned.nil : Interned (∅ : Table κ Nat) next 0 where
  current entry hentry := absurd hentry (Multiset.notMem_zero entry)
  distinct _ _ _ hkey := by simp at hkey
  bound _ _ hkey := by simp at hkey

/-- References may be dropped. -/
theorem Interned.mono (h : Interned table next held) {fewer} (hfewer : fewer ⊆ held) : Interned table next fewer :=
  ⟨fun entry hentry => h.current entry (hfewer hentry), h.distinct, h.bound⟩

/-- Handles that nothing references may be forgotten. -/
theorem Interned.retain (h : Interned table next held) {keep}
    (hkeep : ∀ entry ∈ held, keep entry.1 entry.2 = true) : Interned (table.retain keep) next held where
  current entry hentry := Table.lookup_retain.mpr ⟨h.current entry hentry, hkeep entry hentry⟩
  distinct key other handle hkey hother :=
    h.distinct key other handle (Table.lookup_retain.mp hkey).1 (Table.lookup_retain.mp hother).1
  bound key handle hkey := h.bound key handle (Table.lookup_retain.mp hkey).1

/-- A new reference is to its key's handle, fresh if it had none. -/
theorem Interned.intern (h : Interned table next held) (key : κ) :
    Interned (intern table next key).1 (next + 1) ((key, (Library.intern table next key).2) ::ₘ held) := by
  rw [Library.intern]
  cases hlookup : table.lookup key with
  | some handle =>
    refine ⟨?_, h.distinct, fun first found hfirst => (h.bound first found hfirst).trans (Nat.lt_succ_self _)⟩
    intro entry hentry
    obtain rfl | hentry := Multiset.mem_cons.mp hentry
    · exact hlookup
    · exact h.current entry hentry
  | none =>
    refine ⟨?_, ?_, ?_⟩
    · intro entry hentry
      obtain rfl | hentry := Multiset.mem_cons.mp hentry
      · exact AList.lookup_insert table
      · have hcurrent := h.current entry hentry
        have hne : entry.1 ≠ key := by
          rintro rfl
          cases hlookup.symm.trans hcurrent
        exact Table.lookup_insert_eq_some.mpr (.inr ⟨hne, hcurrent⟩)
    · intro first second handle hfirst hsecond
      rcases Table.lookup_insert_eq_some.mp hfirst with ⟨rfl, rfl⟩ | ⟨-, hold⟩
      · rcases Table.lookup_insert_eq_some.mp hsecond with ⟨rfl, -⟩ | ⟨-, hold⟩
        · rfl
        · exact absurd (h.bound _ _ hold) (Nat.lt_irrefl _)
      · rcases Table.lookup_insert_eq_some.mp hsecond with ⟨-, rfl⟩ | ⟨-, hother⟩
        · exact absurd (h.bound _ _ hold) (Nat.lt_irrefl _)
        · exact h.distinct first second handle hold hother
    · intro first handle hfirst
      rcases Table.lookup_insert_eq_some.mp hfirst with ⟨-, rfl⟩ | ⟨-, hold⟩
      · exact Nat.lt_succ_self _
      · exact (h.bound first handle hold).trans (Nat.lt_succ_self _)

/-- Two references to one key are to one handle. -/
theorem Interned.same (h : Interned table next held) {left right} (hleft : left ∈ held)
    (hright : right ∈ held) : left.1 = right.1 ↔ left.2 = right.2 := by
  have hcurrent := h.current left hleft
  have hother := h.current right hright
  constructor
  · intro hkey
    rw [hkey, hother] at hcurrent
    exact (Option.some.inj hcurrent).symm
  · intro hhandle
    rw [hhandle] at hcurrent
    exact h.distinct _ _ _ hcurrent hother

end ShimpzTeams.Library
