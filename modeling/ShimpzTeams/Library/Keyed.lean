import Mathlib.Data.List.Nodup
import Mathlib.Data.List.Forall2
import Mathlib.Data.List.Pairwise
import Mathlib.Algebra.Order.BigOperators.Group.List
import Mathlib.Algebra.Order.Monoid.Canonical.Defs
import Mathlib.Algebra.Order.Ring.Nat

/-!
# Lists of records with a key

Records are looked up, replaced and removed by a key. Where keys are distinct, a
replacement touches exactly one record, so a sum over the records moves by the
difference of the two.
-/

namespace ShimpzTeams.Library

open List

variable {α κ : Type} [DecidableEq κ] {key : α → κ} {records : List α} {updated value : α} {k : κ}

def replaceFirst (key : α → κ) (updated : α) : List α → List α
  | [] => []
  | item :: rest =>
    if key item == key updated then updated :: rest else item :: replaceFirst key updated rest

theorem find?_key_mem (h : records.find? (fun item => key item == k) = some value) : value ∈ records ∧ key value = k :=
  ⟨mem_of_find?_eq_some h, by simpa using find?_some h⟩

theorem find?_key_split (h : records.find? (fun item => key item == k) = some value) :
    ∃ before after, records = before ++ value :: after ∧ key value = k ∧ ∀ item ∈ before, key item ≠ k := by
  obtain ⟨hkey, before, after, rfl, hbefore⟩ := find?_eq_some_iff_append.mp h
  exact ⟨before, after, rfl, by simpa using hkey, by simpa using hbefore⟩

variable {before after : List α}

theorem find?_key_append (hkey : key value = k) (hbefore : ∀ item ∈ before, key item ≠ k) :
    (before ++ value :: after).find? (fun item => key item == k) = some value :=
  find?_eq_some_iff_append.mpr
    ⟨by simpa using hkey, before, after, rfl, by simpa using hbefore⟩

omit [DecidableEq κ] in
/-- Distinct keys: no other record has the key of one. -/
theorem key_ne_of_split (hnodup : ((before ++ value :: after).map key).Nodup) :
    (∀ item ∈ before, key item ≠ key value) ∧ ∀ item ∈ after, key item ≠ key value := by
  rw [map_append, map_cons, nodup_append, nodup_cons] at hnodup
  obtain ⟨-, ⟨hafter, -⟩, hbefore⟩ := hnodup
  refine ⟨fun item hitem => ?_, fun item hitem heq => hafter (heq ▸ mem_map_of_mem hitem)⟩
  exact hbefore _ (mem_map_of_mem hitem) _ mem_cons_self

theorem find?_key_of_mem (hnodup : (records.map key).Nodup) (hvalue : value ∈ records) :
    records.find? (fun item => key item == key value) = some value := by
  obtain ⟨before, after, rfl⟩ := append_of_mem hvalue
  exact find?_key_append rfl (key_ne_of_split hnodup).1

theorem find?_key_eq_none (h : records.find? (fun item => key item == k) = none)
    (hvalue : value ∈ records) : key value ≠ k := by
  simpa using find?_eq_none.mp h value hvalue

/-- A record found by its key is found among the records kept, if it is kept. -/
theorem find?_filter_of_find? {keep}
    (h : records.find? (fun item => key item == k) = some value) (hkeep : keep value = true) :
    (records.filter keep).find? (fun item => key item == k) = some value := by
  obtain ⟨before, after, rfl, hkey, hbefore⟩ := find?_key_split h
  rw [filter_append, filter_cons_of_pos hkeep]
  exact find?_key_append hkey fun item hitem => hbefore item (mem_filter.mp hitem).1

/-- Where only the first record of a key may be kept, a record found among the kept is found. -/
theorem find?_of_find?_filter {keep}
    (hfirst : records.Pairwise fun earlier later => key earlier = key later → keep later = false)
    (h : (records.filter keep).find? (fun item => key item == k) = some value) :
    records.find? (fun item => key item == k) = some value := by
  obtain ⟨hmem, rfl⟩ := find?_key_mem h
  obtain ⟨hmem, hkept⟩ := mem_filter.mp hmem
  obtain ⟨before, after, rfl⟩ := append_of_mem hmem
  refine find?_key_append rfl fun item hitem hkey => ?_
  have hdropped := (pairwise_append.mp hfirst).2.2 item hitem value mem_cons_self hkey
  exact Bool.false_ne_true (hdropped.symm.trans hkept)

/-- A record found once another key is removed was found before. -/
theorem find?_of_find?_remove {other}
    (h : (records.filter fun item => key item != other).find? (fun item => key item == k) =
      some value) : records.find? (fun item => key item == k) = some value := by
  obtain ⟨hmem, hvalue⟩ := find?_key_mem h
  have hne : k ≠ other := by
    have hkept := (mem_filter.mp hmem).2
    rw [hvalue] at hkept
    simpa using hkept
  rw [find?_filter] at h
  rw [← h]
  congr 1
  funext item
  by_cases hitem : key item = k
  · simp [hitem, hne]
  · simp [hitem]

omit [DecidableEq κ] in
theorem eq_of_key_eq (hnodup : (records.map key).Nodup) {left right} (hleft : left ∈ records)
    (hright : right ∈ records) (heq : key left = key right) : left = right :=
  inj_on_of_nodup_map hnodup hleft hright heq

/-- Distinct keys: a key is found among the records kept exactly as its one record is kept. -/
theorem find?_filter_eq (hnodup : (records.map key).Nodup) (keep) :
    (records.filter keep).find? (fun item => key item == k) =
      (records.find? fun item => key item == k).filter keep := by
  cases h : records.find? (fun item => key item == k) with
  | none =>
    rw [Option.filter_none, find?_eq_none]
    intro item hitem
    simpa using find?_key_eq_none h (mem_filter.mp hitem).1
  | some value =>
    by_cases hkeep : keep value = true
    · rw [Option.filter_some_pos hkeep]
      exact find?_filter_of_find? h hkeep
    · rw [Option.filter_some_neg (by simpa using hkeep), find?_eq_none]
      intro item hitem
      obtain ⟨hmem, hkept⟩ := mem_filter.mp hitem
      obtain ⟨hvalue, hkey⟩ := find?_key_mem h
      intro hsame
      have heq := eq_of_key_eq hnodup hmem hvalue ((by simpa using hsame : key item = k).trans hkey.symm)
      exact hkeep (heq ▸ hkept)

theorem replaceFirst_append (hbefore : ∀ item ∈ before, key item ≠ key updated) (hkey : key value = key updated) :
    replaceFirst key updated (before ++ value :: after) = before ++ updated :: after := by
  induction before with
  | nil => simp [replaceFirst, hkey]
  | cons item rest ih =>
    have hitem : key item ≠ key updated := hbefore item mem_cons_self
    have hrest := ih fun other hother => hbefore other (mem_cons_of_mem _ hother)
    simp only [cons_append, replaceFirst, beq_iff_eq, hitem, if_false, hrest]

theorem replaceFirst_of_absent (h : ∀ item ∈ records, key item ≠ key updated) :
    replaceFirst key updated records = records := by
  induction records with
  | nil => rfl
  | cons item rest ih =>
    rw [forall_mem_cons] at h
    rw [replaceFirst, if_neg (by simpa using h.1), ih h.2]

theorem replaceFirst_cases (updated records) : (∀ item ∈ records, key item ≠ key updated) ∨ ∃ before value after,
      records = before ++ value :: after ∧ key value = key updated ∧ ∀ item ∈ before, key item ≠ key updated := by
  cases h : records.find? (fun item => key item == key updated) with
  | none => exact .inl fun item hitem => find?_key_eq_none h hitem
  | some value =>
    obtain ⟨before, after, hsplit⟩ := find?_key_split h
    exact .inr ⟨before, value, after, hsplit⟩

@[simp]
theorem map_key_replaceFirst : (replaceFirst key updated records).map key = records.map key := by
  rcases @replaceFirst_cases _ _ _ key updated records with
    habsent | ⟨before, value, after, rfl, hkey, hbefore⟩
  · rw [replaceFirst_of_absent habsent]
  · simp [replaceFirst_append hbefore hkey, hkey]

@[simp]
theorem length_replaceFirst : (replaceFirst key updated records).length = records.length := by
  rw [← length_map key, map_key_replaceFirst, length_map]

theorem mem_of_mem_replaceFirst (h : value ∈ replaceFirst key updated records) : value = updated ∨ value ∈ records := by
  rcases @replaceFirst_cases _ _ _ key updated records with
    habsent | ⟨before, found, after, rfl, hkey, hbefore⟩
  · exact .inr (replaceFirst_of_absent habsent ▸ h)
  · rw [replaceFirst_append hbefore hkey] at h
    simp only [mem_append, mem_cons] at h ⊢
    tauto

/-- A relation between earlier and later records survives a replacement that keeps it on both
sides. -/
theorem pairwise_replaceFirst {related} (h : records.Pairwise related)
    (hfind : records.find? (fun item => key item == key updated) = some value)
    (hleft : ∀ other, related value other → related updated other)
    (hright : ∀ other, key other ≠ key updated → related other value → related other updated) :
    (replaceFirst key updated records).Pairwise related := by
  obtain ⟨before, after, rfl, hkey, hbefore⟩ := find?_key_split hfind
  rw [replaceFirst_append hbefore hkey]
  rw [pairwise_append, pairwise_cons] at h ⊢
  obtain ⟨hearlier, ⟨hvalue, hlater⟩, hacross⟩ := h
  refine ⟨hearlier, ⟨fun other hother => hleft other (hvalue other hother), hlater⟩, ?_⟩
  intro item hitem other hother
  rcases mem_cons.mp hother with rfl | hother
  · exact hright item (hbefore item hitem) (hacross item hitem value mem_cons_self)
  · exact hacross item hitem other (mem_cons_of_mem _ hother)

theorem mem_replaceFirst (hnodup : (records.map key).Nodup) : value ∈ replaceFirst key updated records ↔
      (value = updated ∧ key updated ∈ records.map key) ∨ (value ∈ records ∧ key value ≠ key updated) := by
  rcases @replaceFirst_cases _ _ _ key updated records with
    habsent | ⟨before, found, after, rfl, hkey, hbefore⟩
  · have hnone : key updated ∉ records.map key := by simpa using habsent
    rw [replaceFirst_of_absent habsent]
    exact ⟨fun h => .inr ⟨h, habsent value h⟩,
      fun h => h.elim (fun h => absurd h.2 hnone) And.left⟩
  · have hafter := hkey ▸ (key_ne_of_split hnodup).2
    rw [replaceFirst_append hbefore hkey]
    simp only [mem_append, mem_cons, map_append, map_cons, hkey]
    constructor
    · rintro (h | rfl | h)
      · exact .inr ⟨.inl h, hbefore value h⟩
      · exact .inl ⟨rfl, by simp⟩
      · exact .inr ⟨.inr (.inr h), hafter value h⟩
    · rintro (⟨rfl, -⟩ | ⟨h | rfl | h, hne⟩)
      · exact .inr (.inl rfl)
      · exact .inl h
      · exact absurd hkey hne
      · exact .inr (.inr h)

theorem find?_replaceFirst_self (h : records.find? (fun item => key item == k) = some value) (hk : key updated = k) :
    (replaceFirst key updated records).find? (fun item => key item == k) = some updated := by
  subst hk
  obtain ⟨before, after, rfl, hkey, hbefore⟩ := find?_key_split h
  rw [replaceFirst_append hbefore hkey]
  exact find?_key_append rfl hbefore

theorem find?_replaceFirst_ne (hk : key updated ≠ k) :
    (replaceFirst key updated records).find? (fun item => key item == k) =
      records.find? (fun item => key item == k) := by
  rcases @replaceFirst_cases _ _ _ key updated records with
    habsent | ⟨before, found, after, rfl, hkey, hbefore⟩
  · rw [replaceFirst_of_absent habsent]
  · simp [replaceFirst_append hbefore hkey, find?_append, hkey, hk]

@[simp]
theorem replaceFirst_replaceFirst {later} (hkey : key later = key updated) :
    replaceFirst key later (replaceFirst key updated records) = replaceFirst key later records := by
  rcases @replaceFirst_cases _ _ _ key updated records with
    habsent | ⟨before, found, after, rfl, hfound, hbefore⟩
  · rw [replaceFirst_of_absent habsent]
  · have hlater : ∀ item ∈ before, key item ≠ key later := hkey ▸ hbefore
    rw [replaceFirst_append hbefore hfound, replaceFirst_append hlater hkey.symm,
      replaceFirst_append hlater (hfound.trans hkey.symm)]

theorem replaceFirst_self (h : records.find? (fun item => key item == key value) = some value) :
    replaceFirst key value records = records := by
  obtain ⟨before, after, rfl, hkey, hbefore⟩ := find?_key_split h
  exact replaceFirst_append hbefore hkey

theorem countP_replaceFirst_le {counted} (h : records.find? (fun item => key item == key updated) = some value)
    (hcounted : counted updated = true → counted value = true) :
    (replaceFirst key updated records).countP counted ≤ records.countP counted := by
  obtain ⟨before, after, rfl, hkey, hbefore⟩ := find?_key_split h
  rw [replaceFirst_append hbefore hkey]
  simp only [countP_append, countP_cons]
  split
  next hupdated => rw [if_pos (hcounted hupdated)]
  next => omega

section

variable {β : Type} {related : α → β → Prop} {left : List α} {right : List β}

omit [DecidableEq κ] in
/-- Each record on the left of a pointwise relation has one on the right. -/
theorem exists_right_of_mem (h : List.Forall₂ related left right) {item} (hitem : item ∈ left) :
    ∃ other ∈ right, related item other := by
  induction h with
  | nil => cases hitem
  | cons hhead _ ih =>
    rcases mem_cons.mp hitem with rfl | hrest
    · exact ⟨_, mem_cons_self, hhead⟩
    · obtain ⟨other, hother, hrelated⟩ := ih hrest
      exact ⟨other, mem_cons_of_mem _ hother, hrelated⟩

omit [DecidableEq κ] in
/-- Each record on the right of a pointwise relation has one on the left. -/
theorem exists_left_of_mem (h : List.Forall₂ related left right) {item} (hitem : item ∈ right) :
    ∃ other ∈ left, related other item := exists_right_of_mem h.flip hitem

end

section

variable {held : α → Bool}

omit [DecidableEq κ] in
/-- Where no two records are both held, at most one is. -/
theorem length_filter_le_one (h : records.Pairwise fun earlier later => ¬(held earlier = true ∧ held later = true)) :
    (records.filter held).length ≤ 1 := by
  have hheld : ∀ item ∈ records.filter held, held item = true := fun item hitem =>
    (mem_filter.mp hitem).2
  have hfiltered := h.filter held
  match hlist : records.filter held with
  | [] => simp
  | [item] => simp
  | first :: second :: rest =>
    rw [hlist] at hfiltered hheld
    have hboth := (pairwise_cons.mp hfiltered).1 second (by simp)
    exact absurd ⟨hheld first (by simp), hheld second (by simp)⟩ hboth

omit [DecidableEq κ] in
/-- Where no two held records share a group, there are at most as many as there are groups. -/
theorem length_filter_le_groups {γ} {group : α → γ} {groups : List γ} (h : records.Pairwise fun earlier later =>
      ¬(held earlier = true ∧ held later = true ∧ group earlier = group later))
    (hgroups : ∀ item ∈ records, group item ∈ groups) :
    (records.filter held).length ≤ groups.length := by
  have hnodup : ((records.filter held).map group).Nodup := by
    rw [List.Nodup, pairwise_map]
    refine (h.filter held).imp_of_mem fun {earlier later} hearlier hlater hne heq => ?_
    exact hne ⟨(mem_filter.mp hearlier).2, (mem_filter.mp hlater).2, heq⟩
  have hsubset : (records.filter held).map group ⊆ groups := by
    intro value hvalue
    obtain ⟨item, hitem, rfl⟩ := mem_map.mp hvalue
    exact hgroups item (mem_filter.mp hitem).1
  simpa using (subperm_of_subset hnodup hsubset).length_le

omit [DecidableEq κ] in
theorem eq_of_same_group {γ} {group : α → γ} (h : records.Pairwise fun earlier later =>
      ¬(held earlier = true ∧ held later = true ∧ group earlier = group later))
    {left right} (hleft : left ∈ records) (hright : right ∈ records)
    (hleftHeld : held left = true) (hrightHeld : held right = true)
    (hgroup : group left = group right) : left = right := by
  have hsymmetric : Std.Symm fun earlier later =>
      ¬(held earlier = true ∧ held later = true ∧ group earlier = group later) :=
    ⟨fun _ _ hnot hboth => hnot ⟨hboth.2.1, hboth.1, hboth.2.2.symm⟩⟩
  by_contra hne
  exact h.forall hleft hright hne ⟨hleftHeld, hrightHeld, hgroup⟩

end

section

variable (weight : α → Nat)

/-- A replacement moves a sum by the difference of the two records also when the weights of the
updated record's key change with it. -/
theorem sum_replaceFirst_of (weight') (hnodup : (records.map key).Nodup)
    (h : records.find? (fun item => key item == key updated) = some value)
    (hothers : ∀ item ∈ records, key item ≠ key updated → weight' item = weight item) :
    ((replaceFirst key updated records).map weight').sum + weight value =
      (records.map weight).sum + weight' updated := by
  obtain ⟨before, after, rfl, hkey, hbefore⟩ := find?_key_split h
  have hafter := (key_ne_of_split hnodup).2
  have hearlier : before.map weight' = before.map weight := map_congr_left fun item hitem =>
    hothers item (mem_append_left _ hitem) (hbefore item hitem)
  have hlater : after.map weight' = after.map weight := map_congr_left fun item hitem =>
    hothers item (by simp [hitem]) (hkey ▸ hafter item hitem)
  rw [replaceFirst_append hbefore hkey]
  simp only [map_append, map_cons, sum_append, sum_cons, hearlier, hlater]
  omega

theorem sum_remove (hnodup : (records.map key).Nodup) (hvalue : value ∈ records) :
    ((records.filter fun item => key item != key value).map weight).sum + weight value = (records.map weight).sum := by
  obtain ⟨before, after, rfl⟩ := append_of_mem hvalue
  obtain ⟨hbefore, hafter⟩ := key_ne_of_split hnodup
  have hearlier : (before.filter fun item => key item != key value) = before :=
    filter_eq_self.mpr (by simpa using hbefore)
  have hlater : (after.filter fun item => key item != key value) = after := filter_eq_self.mpr (by simpa using hafter)
  rw [filter_append, filter_cons_of_neg (by simp), hearlier, hlater]
  simp only [map_append, map_cons, sum_append, sum_cons]
  omega

/-- Weights that grow by at most one, and for one key only, move a sum by at most one. -/
theorem sum_le_succ {weight weight'} (hnodup : (records.map key).Nodup)
    (hothers : ∀ item ∈ records, key item ≠ k → weight' item ≤ weight item)
    (hone : ∀ item ∈ records, weight' item ≤ weight item + 1) :
    (records.map weight').sum ≤ (records.map weight).sum + 1 := by
  induction records with
  | nil => simp
  | cons item rest ih =>
    rw [map_cons, nodup_cons] at hnodup
    simp only [map_cons, sum_cons]
    have hitem := hone item mem_cons_self
    by_cases hkey : key item = k
    · have hrest : (rest.map weight').sum ≤ (rest.map weight).sum := by
        refine sum_le_sum fun other hother => ?_
        refine hothers other (mem_cons_of_mem _ hother) fun heq => hnodup.1 ?_
        rw [hkey, ← heq]
        exact mem_map_of_mem hother
      omega
    · have hsame := hothers item mem_cons_self hkey
      have hrest := ih hnodup.2
        (fun other hother => hothers other (mem_cons_of_mem _ hother))
        fun other hother => hone other (mem_cons_of_mem _ hother)
      omega

omit [DecidableEq κ] in
theorem sum_le_filter {weight bound held}
    (hbound : ∀ item ∈ records, weight item ≤ bound) (hfree : ∀ item ∈ records, held item = false → weight item = 0) :
    (records.map weight).sum ≤ bound * (records.filter held).length := by
  induction records with
  | nil => simp
  | cons item rest ih =>
    have hrest := ih (fun other hother => hbound other (mem_cons_of_mem _ hother))
      fun other hother => hfree other (mem_cons_of_mem _ hother)
    have hitem := hbound item mem_cons_self
    cases hheld : held item with
    | true =>
      rw [filter_cons_of_pos hheld, map_cons, sum_cons, length_cons, Nat.mul_succ]
      omega
    | false =>
      have hzero := hfree item mem_cons_self hheld
      rw [filter_cons_of_neg (by simp [hheld]), map_cons, sum_cons, hzero]
      omega

end

end ShimpzTeams.Library
