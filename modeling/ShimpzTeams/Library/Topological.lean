import ShimpzTeams.Library.Window

/-!
# Ordering a graph by its sources

The least node that no unordered node leads to comes next. Every edge of the
graph then goes from an earlier node to a later one, and the loop ends with no
node ready, having left out the nodes that a cycle leads to and no others. An
order of them all is the least there is.
-/

namespace ShimpzTeams.Library.Topological

open List

variable {κ : Type} [LinearOrder κ]

/-- How far the order is: the edges that still lead to each node, the nodes none leads to, least
first, and the nodes in order so far. -/
structure State (κ : Type) where
  incoming : κ → Nat
  ready : List κ
  order : List κ

/-- One edge to a target is gone. -/
def release (state : State κ) (target : κ) : State κ :=
  { state with
    incoming := fun node => if node = target then state.incoming node - 1 else state.incoming node
    ready :=
      if state.incoming target - 1 = 0 then state.ready.orderedInsert (· ≤ ·) target else state.ready }

/-- Orders ready nodes until none is left, at most so many. -/
def orderFrom (successors : κ → List κ) : Nat → State κ → State κ
  | 0, state => state
  | budget + 1, state =>
    match state.ready with
    | [] => state
    | node :: ready =>
      orderFrom successors budget
        ((successors node).foldl release { state with ready, order := state.order ++ [node] })

def initial (nodes : List κ) (incoming : κ → Nat) : State κ :=
  ⟨incoming, nodes.filter fun node => incoming node = 0, []⟩

section

variable {state : State κ} {targets : List κ} {node : κ}

@[simp]
theorem release_order (state) (target : κ) : (release state target).order = state.order := rfl

theorem foldl_release_order (state) (targets : List κ) : (targets.foldl release state).order = state.order := by
  induction targets generalizing state with
  | nil => rfl
  | cons target rest ih => rw [foldl_cons, ih, release_order]

theorem foldl_release_incoming (htargets : targets.Nodup) (node) : (targets.foldl release state).incoming node =
      if node ∈ targets then state.incoming node - 1 else state.incoming node := by
  induction targets generalizing state with
  | nil => simp
  | cons target rest ih =>
    obtain ⟨hfresh, hrest⟩ := nodup_cons.mp htargets
    rw [foldl_cons, ih hrest]
    by_cases hnode : node = target
    · subst hnode
      simp [release, hfresh]
    · simp [release, hnode]

theorem mem_foldl_release_ready (htargets : targets.Nodup) : node ∈ (targets.foldl release state).ready ↔
      node ∈ state.ready ∨ (node ∈ targets ∧ state.incoming node - 1 = 0) := by
  induction targets generalizing state with
  | nil => simp
  | cons target rest ih =>
    obtain ⟨hfresh, hrest⟩ := nodup_cons.mp htargets
    have hstep : node ∈ (release state target).ready ↔
        node ∈ state.ready ∨ (node = target ∧ state.incoming target - 1 = 0) := by
      by_cases hzero : state.incoming target - 1 = 0
      · simp [release, hzero, or_comm]
      · simp [release, hzero]
    rw [foldl_cons, ih hrest, hstep, mem_cons]
    by_cases hnode : node = target
    · subst hnode
      simp [hfresh]
    · simp [release, hnode]

/-- A node is released at most once, so the ready nodes stay in order and distinct. -/
theorem pairwise_foldl_release (htargets : targets.Nodup) (hready : state.ready.Pairwise (· < ·))
    (hfresh : ∀ target ∈ targets, target ∉ state.ready) : (targets.foldl release state).ready.Pairwise (· < ·) := by
  induction targets generalizing state with
  | nil => exact hready
  | cons target rest ih =>
    obtain ⟨htarget, hrest⟩ := nodup_cons.mp htargets
    rw [foldl_cons]
    by_cases hzero : state.incoming target - 1 = 0
    · have hinserted : (release state target).ready = state.ready.orderedInsert (· ≤ ·) target :=
        if_pos hzero
      refine ih hrest ?_ ?_
      · rw [hinserted]
        have hsorted : (state.ready.orderedInsert (· ≤ ·) target).Pairwise (· ≤ ·) :=
          List.Pairwise.orderedInsert target state.ready (hready.imp le_of_lt)
        have hnodup : (state.ready.orderedInsert (· ≤ ·) target).Nodup := by
          rw [(perm_orderedInsert (· ≤ ·) target state.ready).nodup_iff, nodup_cons]
          exact ⟨hfresh target mem_cons_self, hready.imp ne_of_lt⟩
        exact (hsorted.and hnodup).imp fun hboth => lt_of_le_of_ne hboth.1 hboth.2
      · intro other hother hmem
        rw [hinserted, mem_orderedInsert] at hmem
        rcases hmem with rfl | hmem
        · exact htarget hother
        · exact hfresh other (mem_cons_of_mem target hother) hmem
    · have hsame : (release state target).ready = state.ready := if_neg hzero
      refine ih hrest (hsame ▸ hready) ?_
      intro other hother
      rw [hsame]
      exact hfresh other (mem_cons_of_mem target hother)

end

section

def edgesTo (successors : κ → List κ) (sources : List κ) (node : κ) : Nat :=
  (sources.flatMap successors).count node

def unordered (nodes order : List κ) : List κ := nodes.filter fun node => node ∉ order

/-- What holds of the state throughout: its counts are the edges from nodes out of the order, the ready
nodes are those without one, and every node in order comes after all that lead to it. -/
structure Ordering (nodes : List κ) (successors : κ → List κ) (state : State κ) : Prop where
  incoming : ∀ node, state.incoming node = edgesTo successors (unordered nodes state.order) node
  ready : ∀ node, node ∈ state.ready ↔ node ∈ nodes ∧ node ∉ state.order ∧ state.incoming node = 0
  sorted : state.ready.Pairwise (· < ·)
  nodup : state.order.Nodup
  subset : state.order ⊆ nodes
  sources : ∀ before node after, state.order = before ++ node :: after →
    ∀ source ∈ nodes, node ∈ successors source → source ∈ before

variable {nodes : List κ} {successors : κ → List κ} {state : State κ}

variable {node : κ}

theorem edgesTo_eq_zero {sources} :
    edgesTo successors sources node = 0 ↔ ∀ source ∈ sources, node ∉ successors source := by
  rw [edgesTo, count_eq_zero, mem_flatMap]
  push Not
  rfl

theorem mem_unordered {order} : node ∈ unordered nodes order ↔ node ∈ nodes ∧ node ∉ order := by
  simp [unordered]

theorem edgesTo_unordered_append (hnodes : nodes.Nodup) (hsuccessors : ∀ node, (successors node).Nodup)
    {order first} (hfirst : first ∈ nodes) (hout : first ∉ order) (node) :
    edgesTo successors (unordered nodes order) node = edgesTo successors (unordered nodes (order ++ [first])) node +
        if node ∈ successors first then 1 else 0 := by
  have hperm : (unordered nodes order).Perm (first :: unordered nodes (order ++ [first])) := by
    have hbefore : (unordered nodes order).Nodup := hnodes.filter _
    have hafter : (unordered nodes (order ++ [first])).Nodup := hnodes.filter _
    refine (perm_ext_iff_of_nodup hbefore ?_).mpr fun other => ?_
    · refine nodup_cons.mpr ⟨?_, hafter⟩
      rw [mem_unordered]
      simp
    · rw [mem_cons, mem_unordered, mem_unordered]
      by_cases hother : other = first
      · subst hother
        simp [hfirst, hout]
      · simp [hother]
  rw [edgesTo, (hperm.flatMap_right successors).count_eq, flatMap_cons, count_append,
    List.Nodup.count (hsuccessors first), edgesTo]
  exact Nat.add_comm _ _

theorem ordering_initial (hnodes : nodes.Pairwise (· < ·)) :
    Ordering nodes successors (initial nodes (edgesTo successors nodes)) where
  incoming node := by
    have hall : unordered nodes [] = nodes := filter_eq_self.mpr fun _ _ => by simp
    rw [initial, hall]
  ready node := by simp [initial]
  sorted := hnodes.filter _
  nodup := nodup_nil
  subset := nil_subset nodes
  sources before node after hsplit := by simp [initial] at hsplit

theorem Ordering.next (h : Ordering nodes successors state) (hnodes : nodes.Nodup)
    (hsuccessors : ∀ node, (successors node).Nodup)
    (htargets : ∀ source ∈ nodes, successors source ⊆ nodes) {ready} (hready : state.ready = node :: ready) :
    Ordering nodes successors
      ((successors node).foldl release { state with ready, order := state.order ++ [node] }) := by
  obtain ⟨hnode, hout, hzero⟩ := (h.ready node).mp (hready ▸ mem_cons_self)
  obtain ⟨hleast, hrest⟩ := pairwise_cons.mp (hready ▸ h.sorted)
  -- no unordered node leads to a ready one
  have hsourceless : ∀ other, other ∈ state.ready → ∀ source ∈ nodes, source ∉ state.order →
      other ∉ successors source := by
    intro other hother source hsource hsourceOut
    have hcount := ((h.ready other).mp hother).2.2
    rw [h.incoming] at hcount
    exact edgesTo_eq_zero.mp hcount source (mem_unordered.mpr ⟨hsource, hsourceOut⟩)
  have hnotReady : ∀ target ∈ successors node, target ∉ state.ready := by
    intro target htarget hmem
    exact hsourceless target hmem node hnode hout htarget
  have hincoming : ∀ other,
      ((successors node).foldl release { state with ready, order := state.order ++ [node] }).incoming
        other = edgesTo successors (unordered nodes (state.order ++ [node])) other := by
    intro other
    rw [foldl_release_incoming (hsuccessors node), h.incoming, edgesTo_unordered_append hnodes hsuccessors hnode hout]
    split_ifs <;> omega
  refine ⟨?_, ?_, ?_, ?_, ?_, ?_⟩
  · intro other
    rw [hincoming, foldl_release_order]
  · intro other
    have hsplit : other ∈ state.ready ↔ other = node ∨ other ∈ ready := by rw [hready, mem_cons]
    have hnodeOut : node ∉ ready := fun hmem => lt_irrefl node (hleast node hmem)
    rw [mem_foldl_release_ready (hsuccessors node), foldl_release_order, hincoming, mem_append, mem_singleton]
    have hcount := edgesTo_unordered_append hnodes hsuccessors hnode hout other
    constructor
    · rintro (hmem | ⟨htarget, hlast⟩)
      · obtain ⟨hother, hotherOut, hotherZero⟩ := (h.ready other).mp (hsplit.mpr (.inr hmem))
        rw [h.incoming] at hotherZero
        refine ⟨hother, ?_, by omega⟩
        rintro (hin | rfl)
        · exact hotherOut hin
        · exact hnodeOut hmem
      · rw [h.incoming, hcount, if_pos htarget] at hlast
        refine ⟨htargets node hnode htarget, ?_, by omega⟩
        rintro (hin | rfl)
        · obtain ⟨before, after, hsplit⟩ := append_of_mem hin
          refine hout ?_
          rw [hsplit]
          exact mem_append_left _ (h.sources before other after hsplit node hnode htarget)
        · exact hnotReady other htarget (hready ▸ mem_cons_self)
    · rintro ⟨hother, hotherOut, hotherZero⟩
      by_cases htarget : other ∈ successors node
      · refine .inr ⟨htarget, ?_⟩
        rw [h.incoming, hcount, if_pos htarget, hotherZero]
      · rw [if_neg htarget] at hcount
        have hmem := (h.ready other).mpr
          ⟨hother, fun hin => hotherOut (.inl hin), by rw [h.incoming]; omega⟩
        exact .inl ((hsplit.mp hmem).resolve_left fun heq => hotherOut (.inr heq))
  · refine pairwise_foldl_release (hsuccessors node) hrest fun target htarget hmem => ?_
    exact hnotReady target htarget (hready ▸ mem_cons_of_mem node hmem)
  · rw [foldl_release_order]
    exact nodup_append.mpr ⟨h.nodup, nodup_singleton node, by
      rintro other hother _ hsingle rfl
      exact hout (mem_singleton.mp hsingle ▸ hother)⟩
  · rw [foldl_release_order]
    exact append_subset.mpr ⟨h.subset, fun _ hsingle => mem_singleton.mp hsingle ▸ hnode⟩
  · rw [foldl_release_order]
    refine forall_split_snoc h.sources fun source hsource hedge => ?_
    by_contra hsourceOut
    exact hsourceless node (hready ▸ mem_cons_self) source hsource hsourceOut hedge

/-- An order as long as the graph has every node of it. -/
theorem Ordering.perm (h : Ordering nodes successors state) (hlength : state.order.length = nodes.length) :
    state.order.Perm nodes :=
  (subperm_of_subset h.nodup h.subset).perm_of_length_le hlength.ge

end

section

variable {nodes : List κ} {successors : κ → List κ} {state : State κ} {source target : κ}

def Leads (nodes : List κ) (successors : κ → List κ) (source target : κ) : Prop :=
  source ∈ nodes ∧ target ∈ successors source

def Stuck (nodes : List κ) (successors : κ → List κ) (node : κ) : Prop :=
  ∃ root, Relation.TransGen (Leads nodes successors) root root ∧
    Relation.ReflTransGen (Leads nodes successors) root node

theorem Ordering.idxOf_lt (h : Ordering nodes successors state)
    (hleads : Leads nodes successors source target) (htarget : target ∈ state.order) :
    source ∈ state.order ∧ state.order.idxOf source < state.order.idxOf target := by
  obtain ⟨before, after, hsplit⟩ := append_of_mem htarget
  have hbefore := h.sources before target after hsplit source hleads.1 hleads.2
  have hnodup := h.nodup
  rw [hsplit] at hnodup ⊢
  have hnot : target ∉ before := fun hmem =>
    (nodup_append.mp hnodup).2.2 target hmem target mem_cons_self rfl
  rw [idxOf_append_of_mem hbefore, idxOf_append_of_notMem hnot]
  exact ⟨mem_append_left _ hbefore, Nat.lt_add_right _ (idxOf_lt_length_of_mem hbefore)⟩

theorem Ordering.transGen_lt (h : Ordering nodes successors state)
    (hpath : Relation.TransGen (Leads nodes successors) source target) (htarget : target ∈ state.order) :
    source ∈ state.order ∧ state.order.idxOf source < state.order.idxOf target := by
  induction hpath using Relation.TransGen.head_induction_on with
  | single hleads => exact h.idxOf_lt hleads htarget
  | head hleads _ ih =>
    obtain ⟨hmem, hlt⟩ := ih
    exact (h.idxOf_lt hleads hmem).imp_right fun hfirst => hfirst.trans hlt

theorem Ordering.not_mem_of_stuck (h : Ordering nodes successors state) {node}
    (hstuck : Stuck nodes successors node) : node ∉ state.order := by
  intro hmem
  obtain ⟨root, hcycle, hpath⟩ := hstuck
  have hroot : root ∈ state.order := by
    rcases Relation.reflTransGen_iff_eq_or_transGen.mp hpath with rfl | hpath
    · exact hmem
    · exact (h.transGen_lt hpath hmem).1
  exact lt_irrefl _ (h.transGen_lt hcycle hroot).2

/-- Going back from a node left out never reaches the order, so it comes to a cycle. -/
theorem Ordering.stuck_of_not_mem (h : Ordering nodes successors state) (hready : state.ready = [])
    {node} (hnode : node ∈ nodes) (hout : node ∉ state.order) : Stuck nodes successors node := by
  have hsource : ∀ node ∈ unordered nodes state.order,
      ∃ source ∈ unordered nodes state.order, node ∈ successors source := by
    intro node hnode
    by_contra hnone
    push Not at hnone
    obtain ⟨hmem, hout⟩ := mem_unordered.mp hnode
    have hzero := (h.incoming node).trans (edgesTo_eq_zero.mpr hnone)
    exact not_mem_nil (hready ▸ (h.ready node).mpr ⟨hmem, hout, hzero⟩)
  have : Nonempty κ := ⟨node⟩
  choose! back hback hedge using hsource
  have hout (steps : Nat) : back^[steps] node ∈ unordered nodes state.order := by
    induction steps with
    | zero => exact mem_unordered.mpr ⟨hnode, hout⟩
    | succ steps ih =>
      rw [Function.iterate_succ_apply']
      exact hback _ ih
  have hstep (steps : Nat) : Leads nodes successors (back^[steps + 1] node) (back^[steps] node) := by
    refine ⟨(mem_unordered.mp (hout (steps + 1))).1, ?_⟩
    rw [Function.iterate_succ_apply']
    exact hedge _ (hout steps)
  have hpath (first : Nat) {last : Nat} (hle : first ≤ last) :
      Relation.ReflTransGen (Leads nodes successors) (back^[last] node) (back^[first] node) := by
    induction last, hle using Nat.le_induction with
    | base => exact .refl
    | succ last _ ih => exact .head (hstep last) ih
  have hfinite := (finite_toSet (unordered nodes state.order)).to_subtype
  obtain ⟨first, last, hne, heq⟩ := Finite.exists_ne_map_eq_of_infinite
    fun steps => (⟨back^[steps] node, hout steps⟩ : {node | node ∈ unordered nodes state.order})
  have hsame : back^[first] node = back^[last] node := congrArg Subtype.val heq
  wlog hlt : first < last generalizing first last
  · exact this last first hne.symm heq.symm hsame.symm (lt_of_le_of_ne (not_lt.mp hlt) hne.symm)
  refine ⟨back^[first] node, ?_, hpath 0 first.zero_le⟩
  obtain ⟨last, rfl⟩ := Nat.exists_eq_succ_of_ne_zero (Nat.ne_of_gt (Nat.zero_lt_of_lt hlt))
  have hcycle := Relation.TransGen.head' (hstep last) (hpath first (Nat.lt_succ_iff.mp hlt))
  rwa [← hsame] at hcycle

end

variable {nodes order other : List κ} {successors : κ → List κ} {state : State κ}

/-- Each node of an order is the least of those that only earlier nodes lead to. -/
def Greedy (nodes : List κ) (successors : κ → List κ) (order : List κ) : Prop :=
  ∀ before node after, order = before ++ node :: after → ∀ other ∈ nodes, other ∉ before →
    (∀ source ∈ nodes, other ∈ successors source → source ∈ before) → node ≤ other

theorem Ordering.greedy_next (h : Ordering nodes successors state) {node ready}
    (hready : state.ready = node :: ready) (hgreedy : Greedy nodes successors state.order) :
    Greedy nodes successors (state.order ++ [node]) := by
  refine forall_split_snoc hgreedy fun other hother hout hsources => ?_
  have hzero : state.incoming other = 0 := by
    rw [h.incoming, edgesTo_eq_zero]
    intro source hsource hedge
    obtain ⟨hmem, hunordered⟩ := mem_unordered.mp hsource
    exact hunordered (hsources source hmem hedge)
  have hmem := hready ▸ (h.ready other).mpr ⟨hother, hout, hzero⟩
  have hleast := (pairwise_cons.mp (hready ▸ h.sorted)).1
  exact (mem_cons.mp hmem).elim (fun heq => heq ▸ le_rfl) fun hmem => (hleast other hmem).le

/-- Rounds keep the invariant and the greed, and as many as the graph has nodes leave none ready. -/
theorem Ordering.run (h : Ordering nodes successors state) (hnodes : nodes.Nodup)
    (hsuccessors : ∀ node, (successors node).Nodup)
    (htargets : ∀ source ∈ nodes, successors source ⊆ nodes) (budget : Nat) :
    Ordering nodes successors (orderFrom successors budget state) ∧
      (nodes.length ≤ state.order.length + budget → (orderFrom successors budget state).ready = []) ∧
      (Greedy nodes successors state.order → Greedy nodes successors (orderFrom successors budget state).order) := by
  induction budget generalizing state with
  | zero =>
    refine ⟨h, fun hbudget => eq_nil_iff_forall_not_mem.mpr fun node hnode => ?_, id⟩
    have hall : state.order.Perm nodes := (subperm_of_subset h.nodup h.subset).perm_of_length_le hbudget
    obtain ⟨hmem, hout, -⟩ := (h.ready node).mp hnode
    exact hout (hall.mem_iff.mpr hmem)
  | succ budget ih =>
    rw [orderFrom]
    cases hready : state.ready with
    | nil => exact ⟨h, fun _ => hready, id⟩
    | cons node ready =>
      obtain ⟨hrun, hdone, hgreedy⟩ := ih (h.next hnodes hsuccessors htargets hready)
      rw [foldl_release_order] at hdone hgreedy
      refine ⟨hrun, fun hbudget => hdone ?_, fun hbefore => hgreedy (h.greedy_next hready hbefore)⟩
      rw [length_append, length_singleton]
      omega

/-- A greedy order is the least of the orders in which each node comes after all that lead to it. -/
theorem Greedy.least (hgreedy : Greedy nodes successors order) (hlength : order.length = other.length)
    (hperm : other.Perm nodes) (hnodup : other.Nodup) (hsources : ∀ before node after, other = before ++ node :: after →
      ∀ source ∈ nodes, node ∈ successors source → source ∈ before) : order = other ∨ List.Lex (· < ·) order other := by
  -- from the first place where the two differ
  suffices hfrom : ∀ rest before rest', order = before ++ rest → other = before ++ rest' →
      rest = rest' ∨ List.Lex (· < ·) rest rest' from hfrom order [] other rfl rfl
  intro rest
  induction rest with
  | nil =>
    rintro before rest' rfl rfl
    exact .inl (eq_nil_of_length_eq_zero (by simpa using hlength)).symm
  | cons first rest ih =>
    intro before rest' horder hother
    cases rest' with
    | nil => simp [horder, hother] at hlength
    | cons second rest' =>
      have hmem : second ∈ nodes := hperm.mem_iff.mp (by simp [hother])
      have hout : second ∉ before := fun hmem =>
        (nodup_append.mp (hother ▸ hnodup)).2.2 second hmem second mem_cons_self rfl
      rcases (hgreedy before first rest horder second hmem hout
        (hsources before second rest' hother)).lt_or_eq with hlt | rfl
      · exact .inr (.rel hlt)
      · refine (ih (before ++ [first]) rest' (by simp [horder]) (by simp [hother])).imp ?_ .cons
        exact congrArg (first :: ·)

end ShimpzTeams.Library.Topological
