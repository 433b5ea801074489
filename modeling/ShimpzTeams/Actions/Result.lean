import ShimpzTeams.Protocol.RoundTrip

/-!
# The bounded canonical JSON of an Action result

A result is admitted within a depth and a number of values, and kept as its
canonical text within a size. What is kept is read back as the result with its
members in name order, and that is admitted with the same text.
-/

namespace ShimpzTeams.Actions

open StrictJson Protocol Library List

variable {levels : Nat} {value : Value}

/-- The deepest nesting a result may have. -/
def maxJsonDepth : Nat := 32

/-- The most values a result may hold. -/
def maxJsonNodes : Nat := 4096

/-- Why a result is not bounded canonical JSON. -/
inductive ResultError where
  | tooComplex
  | size
  deriving DecidableEq, Repr

def children : Value → List Value
  | .array items => items
  | .object members => members.map Prod.snd
  | _ => []

def walkFrom : Nat → List (Value × Nat) → Except ResultError Unit
  | _, [] => .ok ()
  | 0, _ :: _ => .error .tooComplex
  | budget + 1, (value, depth) :: pending =>
    if maxJsonDepth < depth then .error .tooComplex
    else walkFrom budget ((children value).reverse.map (fun item => (item, depth + 1)) ++ pending)

/-- Admits only values within the depth and node bounds. -/
def walk (value : Value) : Except ResultError Unit := walkFrom maxJsonNodes [(value, 0)]

/-- A result's canonical text, refused beyond `maxBytes`. -/
def canonicalResult [Platform] (value : Value) (maxBytes : Nat) : Except ResultError String := do
  walk value
  if maxBytes < (canonical value).utf8ByteSize then .error .size else .ok (canonical value)

mutual

/-- How many values a value holds, itself included. -/
def nodes : Value → Nat
  | .array items => nodesItems items + 1
  | .object members => nodesMembers members + 1
  | _ => 1

def nodesItems : List Value → Nat
  | [] => 0
  | item :: rest => nodes item + nodesItems rest

def nodesMembers : List (String × Value) → Nat
  | [] => 0
  | (_, member) :: rest => nodes member + nodesMembers rest

end

theorem nodes_eq (value) : nodes value = ((children value).map nodes).sum + 1 := by
  cases value with
  | null | bool | number | string => rfl
  | array items =>
    have hitems : ∀ items : List Value, nodesItems items = (items.map nodes).sum := by
      intro items
      induction items with
      | nil => rfl
      | cons item rest ih => rw [nodesItems, ih, map_cons, sum_cons]
    rw [nodes, hitems, children]
  | object members =>
    have hmembers : ∀ members : List (String × Value),
        nodesMembers members = ((members.map Prod.snd).map nodes).sum := by
      intro members
      induction members with
      | nil => rfl
      | cons member rest ih => rw [nodesMembers, ih, map_cons, map_cons, sum_cons]
    rw [nodes, hmembers, children]

theorem inductChildren {motive : Value → Prop}
    (step : ∀ value, (∀ child ∈ children value, motive child) → motive value) (value) : motive value := by
  induction value using Value.induct with
  | null | bool | number | string =>
    refine step _ fun child hchild => ?_
    cases hchild
  | array items ih => exact step _ ih
  | object members ih =>
    refine step _ fun child hchild => ?_
    obtain ⟨member, hmember, rfl⟩ := mem_map.mp hchild
    exact ih member hmember

/-- Every value inside a value is at most some levels below it. -/
def Within : Nat → Value → Prop
  | 0, value => children value = []
  | levels + 1, value => ∀ child ∈ children value, Within levels child

theorem within_iff (depth) (h : depth ≤ maxJsonDepth) (value) :
    (∃ levels, depth + levels = maxJsonDepth ∧ Within levels value) ↔
      ∀ child ∈ children value, ∃ levels, depth + 1 + levels = maxJsonDepth ∧ Within levels child := by
  constructor
  · rintro ⟨levels, hlevels, hwithin⟩ child hchild
    cases levels with
    | zero =>
      rw [show children value = [] from hwithin] at hchild
      cases hchild
    | succ levels => exact ⟨levels, by omega, hwithin child hchild⟩
  · intro hchildren
    obtain ⟨levels, hlevels⟩ := Nat.exists_eq_add_of_le h
    refine ⟨levels, hlevels.symm, ?_⟩
    cases levels with
    | zero =>
      refine eq_nil_iff_forall_not_mem.mpr fun child hchild => ?_
      obtain ⟨levels, hsame, -⟩ := hchildren child hchild
      omega
    | succ levels =>
      intro child hchild
      obtain ⟨below, hsame, hwithin⟩ := hchildren child hchild
      rwa [show levels = below by omega]

theorem walkFrom_eq_ok (budget pending) :
    walkFrom budget pending = .ok () ↔ (pending.map fun entry => nodes entry.1).sum ≤ budget ∧
      ∀ entry ∈ pending, ∃ levels, entry.2 + levels = maxJsonDepth ∧ Within levels entry.1 := by
  induction budget generalizing pending with
  | zero =>
    cases pending with
    | nil => simp [walkFrom]
    | cons entry pending =>
      have hpositive := nodes_eq entry.1
      simp only [walkFrom, map_cons, sum_cons, reduceCtorEq, false_iff, not_and]
      omega
  | succ budget ih =>
    cases pending with
    | nil => simp [walkFrom]
    | cons entry pending =>
      obtain ⟨value, depth⟩ := entry
      by_cases hdepth : maxJsonDepth < depth
      · simp only [walkFrom, if_pos hdepth, reduceCtorEq, false_iff, not_and]
        intro _ hentries
        obtain ⟨levels, hlevels, -⟩ := hentries (value, depth) mem_cons_self
        omega
      · have hsum : (((children value).reverse.map fun item => (item, depth + 1)).map
            fun entry => nodes entry.1).sum + 1 = nodes value := by
          rw [map_map, nodes_eq value]
          have hreverse : ((children value).reverse.map nodes).sum = ((children value).map nodes).sum :=
            ((children value).reverse_perm.map nodes).sum_eq
          exact congrArg (· + 1) hreverse
        have hchildren := within_iff depth (not_lt.mp hdepth) value
        rw [walkFrom, if_neg hdepth, ih, map_append, sum_append, map_cons, sum_cons,
          forall_mem_append, forall_mem_cons, hchildren]
        simp only [mem_map, mem_reverse, forall_exists_index, and_imp, forall_apply_eq_imp_iff₂]
        refine and_congr_left fun _ => ?_
        rw [← hsum]
        omega

theorem walk_eq_ok (value) : walk value = .ok () ↔ nodes value ≤ maxJsonNodes ∧ Within maxJsonDepth value := by
  rw [walk, walkFrom_eq_ok]
  simp only [map_cons, map_nil, sum_singleton, mem_singleton, forall_eq, Nat.zero_add, exists_eq_left]

theorem children_sorted (value) : (children (sorted value)).Perm ((children value).map sorted) := by
  cases value with
  | null | bool | number | string => exact List.Perm.refl _
  | array items => rw [sorted, sortedItems_eq_map, children, children]
  | object members =>
    rw [sorted, sortedMembers_eq_map, children, children]
    refine ((perm_insertionSort _ _).map Prod.snd).trans ?_
    rw [map_map, map_map]
    exact List.Perm.refl _

theorem nodes_sorted (value) : nodes (sorted value) = nodes value := by
  induction value using inductChildren with
  | _ value ih =>
    rw [nodes_eq, nodes_eq value, ((children_sorted value).map nodes).sum_eq, map_map]
    have hchildren : (children value).map (nodes ∘ sorted) = (children value).map nodes := map_congr_left ih
    rw [hchildren]

theorem within_sorted (h : Within levels value) : Within levels (sorted value) := by
  induction levels generalizing value with
  | zero =>
    have hnone : children value = [] := h
    have hperm := children_sorted value
    rw [hnone] at hperm
    exact hperm.eq_nil
  | succ levels ih =>
    intro child hchild
    obtain ⟨original, horiginal, rfl⟩ := mem_map.mp ((children_sorted value).mem_iff.mp hchild)
    exact ih (h original horiginal)

theorem nesting_le_of_children (h : ∀ child ∈ children value, nesting child ≤ levels) : nesting value ≤ levels + 1 := by
  cases value with
  | null | bool | number | string => exact Nat.zero_le _
  | array items =>
    have hitems : nestingItems items ≤ levels := by
      have hall : ∀ item ∈ items, nesting item ≤ levels := h
      clear h
      induction items with
      | nil => exact Nat.zero_le _
      | cons item rest ih =>
        rw [nestingItems]
        exact max_le (hall item mem_cons_self)
          (ih fun other hother => hall other (mem_cons_of_mem _ hother))
    rw [nesting]
    omega
  | object members =>
    have hmembers : nestingMembers members ≤ levels := by
      have hall : ∀ member ∈ members, nesting member.2 ≤ levels :=
        fun member hmember => h member.2 (mem_map_of_mem hmember)
      clear h
      induction members with
      | nil => exact Nat.zero_le _
      | cons member rest ih =>
        rw [nestingMembers]
        exact max_le (hall member mem_cons_self)
          (ih fun other hother => hall other (mem_cons_of_mem _ hother))
    rw [nesting]
    omega

theorem nesting_of_within (h : Within levels value) : nesting value ≤ levels + 1 := by
  induction levels generalizing value with
  | zero =>
    refine nesting_le_of_children fun child hchild => ?_
    rw [show children value = [] from h] at hchild
    cases hchild
  | succ levels ih => exact nesting_le_of_children fun child hchild => ih (h child hchild)

variable {encoded : String} {maxBytes : Nat}

variable [Platform]

theorem canonicalResult_eq_ok : canonicalResult value maxBytes = .ok encoded ↔
      walk value = .ok () ∧ (canonical value).utf8ByteSize ≤ maxBytes ∧ encoded = canonical value := by
  simp only [canonicalResult, bind_eq_ok, guard_eq_ok, not_lt, Except.ok.injEq]
  constructor
  · rintro ⟨⟨⟩, hwalk, hsize, rfl⟩
    exact ⟨hwalk, hsize, rfl⟩
  · rintro ⟨hwalk, hsize, rfl⟩
    exact ⟨(), hwalk, hsize, rfl⟩

/-- What is kept of a decoded result is read back as that result with its members in name order, and
that is admitted with the same text. -/
theorem parse_canonicalResult (hdecoded : Decoded value) (h : canonicalResult value maxBytes = .ok encoded) :
    parse encoded = .ok (sorted value) ∧ canonicalResult (sorted value) maxBytes = .ok encoded := by
  obtain ⟨hwalk, hsize, rfl⟩ := canonicalResult_eq_ok.mp h
  obtain ⟨hnodes, hwithin⟩ := (walk_eq_ok value).mp hwalk
  have hnesting : nesting value ≤ maxDepth := le_trans (nesting_of_within hwithin) (by decide)
  refine ⟨parse_canonical hdecoded hnesting, canonicalResult_eq_ok.mpr ⟨?_, ?_, ?_⟩⟩
  · rw [walk_eq_ok, nodes_sorted]
    exact ⟨hnodes, within_sorted hwithin⟩
  · rwa [canonical_sorted]
  · rw [canonical_sorted]

end ShimpzTeams.Actions
