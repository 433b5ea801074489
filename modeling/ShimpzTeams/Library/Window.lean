import Mathlib.Data.List.Basic
import Mathlib.Data.List.Nodup
import Mathlib.Data.List.Perm.Subperm
import Mathlib

/-!
# Entries and those before them, numbered names, rolling windows

A property of every entry of a list and of what precedes it holds of the list with
one entry more when it holds of that entry after the list. Where no two numbers give
one name, a search for a name that is not taken ends. Where each event, when it
happens, fits a bound beside the events of the window that ends with it, every
window of that length is within the bound, wherever it ends.
-/

namespace ShimpzTeams.Library

open List

section

variable {α : Type*} {holds : List α → α → Prop} {entries : List α} {last : α}

theorem forall_split_snoc (h : ∀ before entry after, entries = before ++ entry :: after → holds before entry)
    (hlast : holds entries last) :
    ∀ before entry after, entries ++ [last] = before ++ entry :: after → holds before entry := by
  intro before entry after hsplit
  rcases eq_nil_or_concat after with rfl | ⟨rest, final, rfl⟩
  · obtain ⟨rfl, hentry⟩ := append_inj' hsplit rfl
    obtain rfl := singleton_inj.mp hentry
    exact hlast
  · rw [concat_eq_append, ← cons_append, ← append_assoc] at hsplit
    exact h before entry rest (append_inj' hsplit rfl).1

theorem forall_split_cut (h : ∀ before entry after, entries ++ [last] = before ++ entry :: after → holds before entry) :
    ∀ before entry after, entries = before ++ entry :: after → holds before entry := by
  intro before entry after hsplit
  refine h before entry (after ++ [last]) ?_
  rw [hsplit, append_assoc, cons_append]

end

section

variable {α : Type*} [DecidableEq α] {name : Nat → α} {taken : List α} {tries count free : Nat}

def firstFree (name : Nat → α) (taken : List α) : Nat → Nat → Option Nat
  | 0, _ => none
  | tries + 1, count =>
    if name count ∈ taken then firstFree name taken tries (count + 1) else some count

theorem firstFree_eq_some (h : firstFree name taken tries count = some free) : count ≤ free ∧ name free ∉ taken := by
  induction tries generalizing count with
  | zero => cases h
  | succ tries ih =>
    rw [firstFree] at h
    split at h
    next =>
      obtain ⟨hle, hfree⟩ := ih h
      exact ⟨by omega, hfree⟩
    next hfree =>
      cases h
      exact ⟨Nat.le_refl _, hfree⟩

theorem firstFree_eq_none (h : firstFree name taken tries count = none) :
    (List.range' count tries).map name ⊆ taken := by
  induction tries generalizing count with
  | zero => exact nil_subset taken
  | succ tries ih =>
    rw [firstFree] at h
    split at h
    next htaken =>
      rw [List.range'_succ, map_cons]
      exact cons_subset.mpr ⟨htaken, ih h⟩
    · cases h

theorem exists_firstFree (hname : Function.Injective name) (taken : List α) (count : Nat) :
    ∃ free, firstFree name taken (taken.length + 1) count = some free := by
  rw [← Option.isSome_iff_exists, Option.isSome_iff_ne_none]
  intro hnone
  have hnodup : ((List.range' count (taken.length + 1)).map name).Nodup := List.Nodup.map hname nodup_range'
  have hlength := (subperm_of_subset hnodup (firstFree_eq_none hnone)).length_le
  rw [length_map, length_range'] at hlength
  omega

end

variable {α : Type} (instant weight : α → Int) (span : Int)

def recent (now : Int) (events : List α) : List α :=
  events.filter fun event => now - span < instant event

def within (finish : Int) (events : List α) : List α :=
  events.filter fun event => finish - span < instant event && instant event ≤ finish

def Fits (bound : Int) (events : List α) : Prop :=
  ∀ earlier event later, events = earlier ++ event :: later →
    ((recent instant span (instant event) earlier).map weight).sum + weight event ≤ bound

def Chronological (events : List α) : Prop :=
  events.Pairwise fun earlier later => instant earlier ≤ instant later

variable {instant weight span} {bound now finish : Int} {events : List α} {event : α}

theorem chronological_snoc (h : Chronological instant events)
    (hlast : ∀ item ∈ events, instant item ≤ instant event) : Chronological instant (events ++ [event]) := by
  refine pairwise_append.mpr ⟨h, pairwise_singleton _ _, ?_⟩
  intro item hitem last hmem
  rw [mem_singleton.mp hmem]
  exact hlast item hitem

/-- What a later window still contains is not lost by an earlier cut. -/
theorem recent_recent {earlier later} (h : earlier ≤ later) (events : List α) :
    recent instant span later (recent instant span earlier events) = recent instant span later events := by
  unfold recent
  rw [filter_filter]
  refine filter_congr fun item _ => ?_
  by_cases hitem : later - span < instant item
  · have hearlier : earlier - span < instant item := by omega
    simp [hitem, hearlier]
  · simp [hitem]

theorem recent_snoc (now : Int) (hrecent : now - span < instant event) :
    recent instant span now (events ++ [event]) = recent instant span now events ++ [event] := by
  unfold recent
  rw [filter_append, filter_singleton, decide_eq_true hrecent]
  rfl

theorem chronological_recent (h : Chronological instant events) :
    Chronological instant (recent instant span now events) :=
  List.Pairwise.sublist filter_sublist h

theorem insertionSort_recent (h : Chronological instant events) :
    (recent instant span now events).insertionSort (fun left right => instant left ≤ instant right) =
      recent instant span now events :=
  List.Pairwise.insertionSort_eq (chronological_recent h)

theorem fits_nil : Fits instant weight span bound [] := by
  intro earlier event later heq
  simp at heq

theorem Fits.snoc (h : Fits instant weight span bound events)
    (hevent : ((recent instant span (instant event) events).map weight).sum + weight event ≤ bound) :
    Fits instant weight span bound (events ++ [event]) :=
  forall_split_snoc h hevent

theorem Fits.cut (h : Fits instant weight span bound (events ++ [event])) : Fits instant weight span bound events :=
  forall_split_cut h

theorem within_snoc_inside (h : finish - span < instant event ∧ instant event ≤ finish) :
    within instant span finish (events ++ [event]) = within instant span finish events ++ [event] := by
  unfold within
  rw [filter_append]
  simp [h]

theorem within_snoc_outside (h : ¬(finish - span < instant event ∧ instant event ≤ finish)) :
    within instant span finish (events ++ [event]) = within instant span finish events := by
  unfold within
  rw [filter_append]
  simpa using h

/-- Once nothing is later than an instant, the window that ends with it holds every window that
ends later. -/
theorem within_sublist_recent (hlast : ∀ item ∈ events, instant item ≤ now) (hnow : now ≤ finish) :
    (within instant span finish events).Sublist (recent instant span now events) := by
  have hinside : within instant span finish events =
      (recent instant span now events).filter fun item =>
        finish - span < instant item && instant item ≤ finish := by
    unfold within recent
    rw [filter_filter]
    refine filter_congr fun item hitem => ?_
    have hle := hlast item hitem
    by_cases hlate : finish - span < instant item
    · have hrecent : now - span < instant item := by omega
      simp [hlate, hrecent]
    · simp [hlate]
  rw [hinside]
  exact filter_sublist

/-- Where every event fits when it happens, every window is within the bound: the last event of the
window saw all the others of it. -/
theorem sum_within_le (hbound : 0 ≤ bound) (hweight : ∀ item ∈ events, 0 ≤ weight item)
    (hsorted : Chronological instant events) (hfits : Fits instant weight span bound events)
    (finish : Int) : ((within instant span finish events).map weight).sum ≤ bound := by
  induction events using List.reverseRecOn with
  | nil => simpa [within] using hbound
  | append_singleton events event ih =>
    obtain ⟨hearlier, -, hlast⟩ := pairwise_append.mp hsorted
    have hweights : ∀ item ∈ events, 0 ≤ weight item := fun item hitem =>
      hweight item (mem_append_left _ hitem)
    by_cases hinside : finish - span < instant event ∧ instant event ≤ finish
    · have hsub : (within instant span finish events).Sublist
          (recent instant span (instant event) events) :=
        within_sublist_recent (fun item hitem => hlast item hitem event mem_cons_self)
          hinside.2
      have hsum : ((within instant span finish events).map weight).sum ≤
          ((recent instant span (instant event) events).map weight).sum := by
        refine (hsub.map weight).sum_le_sum fun value hvalue => ?_
        obtain ⟨item, hitem, rfl⟩ := mem_map.mp hvalue
        exact hweights item (mem_of_mem_filter hitem)
      have hfit := hfits events event [] rfl
      rw [within_snoc_inside hinside, map_append, sum_append, map_singleton, sum_singleton]
      omega
    · rw [within_snoc_outside hinside]
      exact ih hweights hearlier hfits.cut

end ShimpzTeams.Library
