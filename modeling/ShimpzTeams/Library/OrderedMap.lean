import Mathlib

/-!
# Maps kept in key order

A map is a list of entries whose keys ascend by a rank. Setting a key replaces
its entry or puts a new one in its place. A set is a map without values.
-/

namespace ShimpzTeams.Library.OrderedMap

open List

variable {κ ρ α : Type} [LinearOrder ρ] (rank : κ → ρ)

def put (key : κ) (value : α) : List (κ × α) → List (κ × α)
  | [] => [(key, value)]
  | entry :: rest =>
    if rank key < rank entry.1 then (key, value) :: entry :: rest
    else if rank key = rank entry.1 then (key, value) :: rest
    else entry :: put key value rest

def get (key : κ) (entries : List (κ × α)) : Option α :=
  (entries.find? fun entry => rank entry.1 = rank key).map Prod.snd

/-- The map of some entries, a later one of a key replacing the earlier. -/
def ofEntries (entries : List (κ × α)) : List (κ × α) :=
  entries.foldl (fun map entry => put rank entry.1 entry.2 map) []

/-- Some items in order, each once. -/
def setOf (items : List κ) : List κ :=
  (ofEntries rank (items.map fun item => (item, ()))).map Prod.fst

/-- Keys that ascend, so that each stands once. -/
def Ascending (entries : List (κ × α)) : Prop :=
  entries.Pairwise fun left right => rank left.1 < rank right.1

variable {rank} {key other : κ} {value : α} {entries : List (κ × α)}

theorem mem_put {entry} (h : entry ∈ put rank key value entries) : entry = (key, value) ∨ entry ∈ entries := by
  induction entries with
  | nil => exact .inl (mem_singleton.mp h)
  | cons first rest ih =>
    rw [put] at h
    split_ifs at h with hbefore hsame
    · exact mem_cons.mp h
    · exact (mem_cons.mp h).imp id (mem_cons_of_mem first)
    · rcases mem_cons.mp h with rfl | hrest
      · exact .inr mem_cons_self
      · exact (ih hrest).imp id (mem_cons_of_mem first)

theorem get_put_self : get rank key (put rank key value entries) = some value := by
  induction entries with
  | nil => simp [put, get]
  | cons first rest ih =>
    rw [put]
    split_ifs with hbefore hsame
    · simp [get]
    · simp [get]
    · rw [get, find?_cons_of_neg (by simpa using Ne.symm hsame)]
      exact ih

theorem get_put_of_ne (h : rank other ≠ rank key) :
    get rank other (put rank key value entries) = get rank other entries := by
  induction entries with
  | nil => simp [put, get, h.symm]
  | cons first rest ih =>
    rw [put]
    split_ifs with hbefore hsame
    · rw [get, find?_cons_of_neg (by simpa using h.symm)]
      rfl
    · rw [get, get, find?_cons_of_neg (by simpa using h.symm), find?_cons_of_neg (by simpa [← hsame] using h.symm)]
    · by_cases hfirst : rank first.1 = rank other
      · simp [get, hfirst]
      · rw [get, get, find?_cons_of_neg (by simpa using hfirst), find?_cons_of_neg (by simpa using hfirst)]
        exact ih

theorem Ascending.put (h : Ascending rank entries) : Ascending rank (put rank key value entries) := by
  induction entries with
  | nil => exact pairwise_singleton _ _
  | cons first rest ih =>
    obtain ⟨hfirst, hrest⟩ := pairwise_cons.mp h
    rw [OrderedMap.put]
    split_ifs with hbefore hsame
    · refine pairwise_cons.mpr ⟨fun entry hentry => ?_, h⟩
      rcases mem_cons.mp hentry with rfl | hentry
      · exact hbefore
      · exact lt_trans hbefore (hfirst entry hentry)
    · exact pairwise_cons.mpr ⟨fun entry hentry => hsame ▸ hfirst entry hentry, hrest⟩
    · refine pairwise_cons.mpr ⟨fun entry hentry => ?_, ih hrest⟩
      rcases mem_put hentry with rfl | hentry
      · exact lt_of_le_of_ne (not_lt.mp hbefore) (Ne.symm hsame)
      · exact hfirst entry hentry

theorem ofEntries_append (entries) (entry : κ × α) :
    ofEntries rank (entries ++ [entry]) = put rank entry.1 entry.2 (ofEntries rank entries) := by
  rw [ofEntries, foldl_append]
  rfl

theorem ascending_ofEntries (entries : List (κ × α)) : Ascending rank (ofEntries rank entries) := by
  induction entries using List.reverseRecOn with
  | nil => exact List.Pairwise.nil
  | append_singleton entries entry ih =>
    rw [ofEntries_append]
    exact ih.put

/-- The last entry of a key is the one the map holds. -/
theorem get_ofEntries (key) (entries : List (κ × α)) :
    get rank key (ofEntries rank entries) = get rank key entries.reverse := by
  induction entries using List.reverseRecOn with
  | nil => rfl
  | append_singleton entries entry ih =>
    rw [ofEntries_append, reverse_append]
    by_cases hkey : rank entry.1 = rank key
    · have hself : ∀ map, get rank key (put rank entry.1 entry.2 map) =
          get rank entry.1 (put rank entry.1 entry.2 map) := by
        intro map
        rw [get, get, hkey]
      rw [hself, get_put_self]
      simp [get, hkey]
    · rw [get_put_of_ne (Ne.symm hkey), ih]
      simp [get, hkey]

theorem get_eq_none : get rank key entries = none ↔ ∀ entry ∈ entries, rank entry.1 ≠ rank key := by
  simp [get]

theorem mem_of_get (hrank : Function.Injective rank) (h : get rank key entries = some value) :
    (key, value) ∈ entries := by
  obtain ⟨entry, hfound, rfl⟩ := Option.map_eq_some_iff.mp h
  have hkey : entry.1 = key := hrank (by simpa using find?_some hfound)
  exact hkey ▸ mem_of_find?_eq_some hfound

theorem get_of_mem (h : Ascending rank entries) (hmem : (key, value) ∈ entries) :
    get rank key entries = some value := by
  induction entries with
  | nil => cases hmem
  | cons first rest ih =>
    obtain ⟨hfirst, hrest⟩ := pairwise_cons.mp h
    rcases mem_cons.mp hmem with rfl | hmem
    · simp [get]
    · have hne : rank first.1 ≠ rank key := ne_of_lt (hfirst _ hmem)
      rw [get, find?_cons_of_neg (by simpa using hne)]
      exact ih hrest hmem

theorem isSome_get (hrank : Function.Injective rank) :
    (get rank key entries).isSome = true ↔ key ∈ entries.map Prod.fst := by
  rw [Option.isSome_iff_ne_none, Ne, get_eq_none, mem_map]
  push Not
  exact exists_congr fun entry => and_congr_right fun _ => hrank.eq_iff

theorem mem_keys_put (hrank : Function.Injective rank) :
    other ∈ (put rank key value entries).map Prod.fst ↔ other = key ∨ other ∈ entries.map Prod.fst := by
  rw [← isSome_get hrank, ← isSome_get hrank]
  by_cases hkey : other = key
  · subst hkey
    simp [get_put_self]
  · simp [get_put_of_ne (hrank.ne hkey), hkey]

theorem mem_setOf (hrank : Function.Injective rank) {item items} : item ∈ setOf rank items ↔ item ∈ items := by
  have hentries : (∃ entry ∈ ofEntries rank (items.map fun item => (item, ())), entry.1 = item) ↔
      get rank item (ofEntries rank (items.map fun item => (item, ()))) ≠ none := by
    rw [Ne, get_eq_none]
    push Not
    exact exists_congr fun entry => and_congr_right fun _ => hrank.eq_iff.symm
  have hitems : get rank item (items.map fun item => (item, ())).reverse ≠ none ↔ item ∈ items := by
    rw [Ne, get_eq_none]
    push Not
    constructor
    · rintro ⟨entry, hentry, hkey⟩
      obtain ⟨found, hfound, rfl⟩ := mem_map.mp (mem_reverse.mp hentry)
      exact hrank hkey ▸ hfound
    · intro hitem
      exact ⟨(item, ()), mem_reverse.mpr (mem_map.mpr ⟨item, hitem, rfl⟩), rfl⟩
  rw [setOf, mem_map, hentries, get_ofEntries, hitems]

theorem pairwise_setOf (items : List κ) : (setOf rank items).Pairwise fun left right => rank left < rank right :=
  pairwise_map.mpr (ascending_ofEntries _)

theorem nodup_setOf (items) : (setOf rank items).Nodup :=
  (pairwise_setOf items).imp fun hlt heq => absurd (heq ▸ hlt) (lt_irrefl _)

variable {β : Type}

theorem put_map (change : α → β) (key value entries) :
    put rank key (change value) (entries.map fun entry => (entry.1, change entry.2)) =
      (put rank key value entries).map fun entry => (entry.1, change entry.2) := by
  induction entries with
  | nil => rfl
  | cons entry rest ih =>
    rw [map_cons, put, put]
    split_ifs
    · rfl
    · rfl
    · rw [ih, map_cons]

theorem ofEntries_map (change : α → β) (entries : List (κ × α)) :
    ofEntries rank (entries.map fun entry => (entry.1, change entry.2)) =
      (ofEntries rank entries).map fun entry => (entry.1, change entry.2) := by
  induction entries using List.reverseRecOn with
  | nil => rfl
  | append_singleton entries entry ih =>
    rw [map_append, map_singleton, ofEntries_append, ofEntries_append, ih]
    exact put_map change entry.1 entry.2 _

end ShimpzTeams.Library.OrderedMap
