import Mathlib.Data.List.Infix

/-!
# Replacing pieces of a list

Pieces of a list are replaced by inserted items, again and again. Each item is
marked as copied from the original or inserted. A stretch is a run of
consecutive copied items. A replacement leaves an inserted item in place of what
it takes out, so no stretch of the result is new.
-/

namespace ShimpzTeams.Library.Splice

open List

section

variable {β γ : Type}

/-- Replaces every match from the left, none overlapping another: each starts where `matches` holds of
what is left and takes `length` items; some items of the last one are still to skip. -/
def replaceFrom (matching : List β → Bool) (length : Nat) (marker : List β) : Nat → List β → List β
  | _, [] => []
  | skip + 1, _ :: rest => replaceFrom matching length marker skip rest
  | 0, item :: rest =>
    if matching (item :: rest) then marker ++ replaceFrom matching length marker (length - 1) rest
    else item :: replaceFrom matching length marker 0 rest

/-- One match: what lies before it, the part of it that is kept, and the part that is replaced. -/
structure Span where
  before : Nat
  kept : Nat
  replaced : Nat

/-- Replaces each match of some found from the left, keeping the first part of each. -/
def substitute (marker : List β) : List Span → List β → List β
  | [], text => text
  | span :: rest, text =>
    text.take (span.before + span.kept) ++ marker ++
      substitute marker rest (text.drop (span.before + span.kept + span.replaced))

theorem map_replaceFrom (f : β → γ) {matching matching'} (h : ∀ rest, matching' (rest.map f) = matching rest)
    (length) (marker : List β) (skip : Nat) (text : List β) : (replaceFrom matching length marker skip text).map f =
      replaceFrom matching' length (marker.map f) skip (text.map f) := by
  induction text generalizing skip with
  | nil => cases skip <;> rfl
  | cons item rest ih =>
    cases skip with
    | succ skip => exact ih skip
    | zero =>
      have hhead := h (item :: rest)
      rw [map_cons] at hhead
      rw [replaceFrom, map_cons, replaceFrom, hhead]
      split_ifs
      · rw [map_append, ih]
      · rw [map_cons, ih]

theorem map_substitute (f : β → γ) (marker spans text) :
    (substitute marker spans text).map f = substitute (marker.map f) spans (text.map f) := by
  induction spans generalizing text with
  | nil => rfl
  | cons span rest ih =>
    rw [substitute, substitute, map_append, map_append, map_take, ih, map_drop]

end

variable {α : Type}

/-- An item of a list whose pieces were replaced. -/
structure Item (α : Type) where
  value : α
  /-- Whether it is copied from the original, and not inserted. -/
  copied : Bool

def copies (items : List α) : List (Item α) := items.map fun item => ⟨item, true⟩

def inserts (items : List α) : List (Item α) := items.map fun item => ⟨item, false⟩

/-- The items without their marks. -/
def erase (text : List (Item α)) : List α := text.map Item.value

def Stretch (stretch : List α) (text : List (Item α)) : Prop := copies stretch <:+: text

def Finer (after before : List (Item α)) : Prop :=
  ∀ stretch, Stretch stretch after → Stretch stretch before

variable {stretch : List α} {text after before left right : List (Item α)}

@[simp]
theorem erase_copies (items : List α) : erase (copies items) = items := by
  simp [erase, copies, Function.comp_def]

theorem Finer.refl (text : List (Item α)) : Finer text text := fun _ h => h

theorem Finer.trans {middle} (h : Finer after middle) (h' : Finer middle before) :
    Finer after before := fun stretch hstretch => h' stretch (h stretch hstretch)

theorem finer_of_infix (h : after <:+: before) : Finer after before :=
  fun _ hstretch => List.IsInfix.trans hstretch h

theorem stretch_nil (text : List (Item α)) : Stretch [] text := nil_infix

theorem stretch_copies {items} : Stretch stretch (copies items) ↔ stretch <:+: items := by
  constructor
  · intro h
    have hvalues := List.IsInfix.map Item.value h
    change erase (copies stretch) <:+: erase (copies items) at hvalues
    rwa [erase_copies, erase_copies] at hvalues
  · intro h
    exact List.IsInfix.map (fun item : α => (⟨item, true⟩ : Item α)) h

theorem copied_of_mem_copies {items} {item : Item α} (h : item ∈ copies items) : item.copied = true := by
  obtain ⟨value, -, rfl⟩ := mem_map.mp h
  rfl

theorem infix_of_separated {β run left right} {item : β} (hrun : item ∉ run)
    (h : run <:+: left ++ item :: right) : run <:+: left ∨ run <:+: right := by
  induction left with
  | nil =>
    rcases infix_cons_iff.mp h with hstart | hrest
    · cases run with
      | nil => exact .inl nil_infix
      | cons first rest =>
        obtain ⟨rfl, -⟩ := cons_prefix_cons.mp hstart
        exact absurd mem_cons_self hrun
    · exact .inr hrest
  | cons first left ih =>
    rcases infix_cons_iff.mp h with hstart | hrest
    · -- a run from the first item on ends before the separator
      refine .inl ?_
      have hsplit : run <+: (first :: left) ++ item :: right := hstart
      rcases prefix_or_prefix_of_prefix hsplit (prefix_append _ _) with hin | hover
      · exact hin.isInfix
      · obtain ⟨beyond, rfl⟩ := hover
        rw [prefix_append_right_inj] at hsplit
        cases beyond with
        | nil => simp
        | cons other beyond =>
          obtain ⟨rfl, -⟩ := cons_prefix_cons.mp hsplit
          simp at hrun
    · exact (ih hrest).imp (fun hin => infix_cons hin) id

theorem not_mem_copies (value items) : (⟨value, false⟩ : Item α) ∉ copies items :=
  fun hmem => Bool.noConfusion (copied_of_mem_copies hmem)

theorem stretch_nil_iff : Stretch stretch ([] : List (Item α)) ↔ stretch = [] := by
  constructor
  · intro h
    simpa [copies] using eq_nil_of_infix_nil h
  · rintro rfl
    exact stretch_nil []

theorem Stretch.of_inserts_append {marker} (h : Stretch stretch (inserts marker ++ right)) : Stretch stretch right := by
  induction marker with
  | nil => exact h
  | cons value rest ih =>
    have hsplit : copies stretch <:+: [] ++ ⟨value, false⟩ :: (inserts rest ++ right) := h
    rcases infix_of_separated (not_mem_copies value stretch) hsplit with hnone | hrest
    · rw [stretch_nil_iff.mp hnone]
      exact stretch_nil right
    · exact ih hrest

theorem Stretch.separated {marker} (hmarker : marker ≠ [])
    (h : Stretch stretch (left ++ inserts marker ++ right)) : Stretch stretch left ∨ Stretch stretch right := by
  cases marker with
  | nil => exact absurd rfl hmarker
  | cons value rest =>
    have hsplit : copies stretch <:+: left ++ ⟨value, false⟩ :: (inserts rest ++ right) := by
      rw [Stretch, append_assoc] at h
      exact h
    rcases infix_of_separated (not_mem_copies value stretch) hsplit with hleft | hright
    · exact .inl hleft
    · exact .inr (Stretch.of_inserts_append hright)

theorem finer_substitute {marker} (hmarker : marker ≠ []) (spans) (text : List (Item α)) :
    Finer (substitute (inserts marker) spans text) text := by
  induction spans generalizing text with
  | nil => exact Finer.refl text
  | cons span rest ih =>
    intro stretch hstretch
    rcases Stretch.separated hmarker hstretch with hleft | hright
    · exact hleft.trans (List.take_prefix _ _).isInfix
    · exact (ih _ stretch hright).trans (drop_suffix _ _).isInfix

variable {matching : List (Item α) → Bool} {length : Nat} {marker : List α}

/-- A stretch at the start of the result is at the start of the text. -/
theorem prefix_replaceFrom (hmarker : marker ≠ [])
    (h : copies stretch <+: replaceFrom matching length (inserts marker) 0 text) : copies stretch <+: text := by
  induction text generalizing stretch with
  | nil => exact h
  | cons item rest ih =>
    cases stretch with
    | nil => exact nil_prefix
    | cons first stretch =>
      rw [replaceFrom] at h
      split_ifs at h
      · cases marker with
        | nil => exact absurd rfl hmarker
        | cons value marker =>
          obtain ⟨heq, -⟩ := cons_prefix_cons.mp h
          exact Bool.noConfusion (congrArg Item.copied heq)
      · obtain ⟨heq, hrest⟩ := cons_prefix_cons.mp h
        exact cons_prefix_cons.mpr ⟨heq, ih hrest⟩

theorem finer_replaceFrom (hmarker : marker ≠ []) (skip text) :
    Finer (replaceFrom matching length (inserts marker) skip text) text := by
  induction text generalizing skip with
  | nil =>
    cases skip <;> exact Finer.refl []
  | cons item rest ih =>
    intro stretch hstretch
    cases skip with
    | succ skip => exact infix_cons (ih skip stretch hstretch)
    | zero =>
      rw [replaceFrom] at hstretch
      split_ifs at hstretch with hmatch
      · exact infix_cons (ih _ stretch hstretch.of_inserts_append)
      · rcases infix_cons_iff.mp hstretch with hstart | hrest
        · have hwhole : copies stretch <+:
              replaceFrom matching length (inserts marker) 0 (item :: rest) := by
            rw [replaceFrom, if_neg hmatch]
            exact hstart
          exact (prefix_replaceFrom hmarker hwhole).isInfix
        · exact infix_cons (ih 0 stretch hrest)

/-- What matches wherever it stands is no stretch of the result. -/
theorem not_stretch_replaceFrom (hmarker : marker ≠ []) (hstretch : stretch ≠ [])
    (hmatches : ∀ rest, matching (copies stretch ++ rest) = true) (skip text) :
    ¬Stretch stretch (replaceFrom matching length (inserts marker) skip text) := by
  have hempty : ¬Stretch stretch ([] : List (Item α)) := fun h => hstretch (stretch_nil_iff.mp h)
  induction text generalizing skip with
  | nil =>
    cases skip <;> exact hempty
  | cons item rest ih =>
    cases skip with
    | succ skip => exact ih skip
    | zero =>
      rw [replaceFrom]
      split_ifs with hmatch
      · intro h
        exact ih _ h.of_inserts_append
      · intro h
        rcases infix_cons_iff.mp h with hstart | hrest
        · have hwhole : copies stretch <+:
              replaceFrom matching length (inserts marker) 0 (item :: rest) := by
            rw [replaceFrom, if_neg hmatch]
            exact hstart
          obtain ⟨after, hafter⟩ := prefix_replaceFrom hmarker hwhole
          rw [← hafter, hmatches after] at hmatch
          exact hmatch rfl
        · exact ih 0 hrest

end ShimpzTeams.Library.Splice
