import ShimpzTeams.Protocol.RoundTrip
import ShimpzTeams.Routines.Sample

/-!
# Canonical text is injective up to member order

Fields are read by name, so a check that reads fields does not see member order. The
strict reader refuses an object that names a field twice. The canonical text is read
back as the value with its members in name order, so it determines the value up to
the order of its members.
-/

namespace ShimpzTeams.Protocol

open StrictJson List

/-- Members in name order, with their values so ordered. -/
def sortedFields (members : List (String × Value)) : List (String × Value) :=
  (sortedMembers members).insertionSort fun left right => left.1 ≤ right.1

theorem sorted_array (items) : sorted (.array items) = .array (items.map sorted) := by
  rw [sorted, sortedItems_eq_map]

/-- Inserting in name order keeps the first entry of each name. -/
theorem find?_orderedInsert {α} (entry) (entries : List (String × α)) (key) :
    (entries.orderedInsert (fun left right => left.1 ≤ right.1) entry).find? (fun found => found.1 == key) =
      (entry :: entries).find? fun found => found.1 == key := by
  induction entries with
  | nil => rfl
  | cons first rest ih =>
    by_cases hle : entry.1 ≤ first.1
    · rw [List.orderedInsert, if_pos hle]
    · rw [List.orderedInsert, if_neg hle, find?_cons, ih]
      have hne : first.1 ≠ entry.1 := fun heq => hle (heq ▸ String.le_refl _)
      by_cases hfirst : first.1 = key
      · have hentry : entry.1 ≠ key := fun heq => hne (hfirst.trans heq.symm)
        simp [hfirst, hentry]
      · have hskip : (first.1 == key) = false := beq_eq_false_iff_ne.mpr hfirst
        simp only [find?_cons, hskip]

theorem find?_insertionSort {α} (entries : List (String × α)) (key : String) :
    (entries.insertionSort fun left right => left.1 ≤ right.1).find? (fun found => found.1 == key) =
      entries.find? fun found => found.1 == key := by
  induction entries with
  | nil => rfl
  | cons entry rest ih =>
    rw [insertionSort_cons, find?_orderedInsert, find?_cons, find?_cons, ih]

theorem find?_sortedFields (members) (key : String) :
    ((sortedFields members).find? fun member => member.1 == key).map Prod.snd =
      ((members.find? fun member => member.1 == key).map Prod.snd).map sorted := by
  unfold sortedFields
  rw [find?_insertionSort, sortedMembers_eq_map, find?_map, Option.map_map, Option.map_map]
  rfl

@[simp]
theorem get_sorted (value key) : (sorted value).get key = (value.get key).map sorted := by
  cases value with
  | object members => exact find?_sortedFields members key
  | array items => rfl
  | null | bool | number | string => rfl

@[simp]
theorem fieldOf_sorted (value key) : fieldOf (sorted value) key = sorted (fieldOf value key) := by
  unfold fieldOf
  rw [get_sorted]
  cases value.get key <;> rfl

@[simp]
theorem field_sortedFields (members key) : field (sortedFields members) key = sorted (field members key) := by
  unfold field
  rw [find?_sortedFields]
  cases members.find? (fun member => member.1 == key) <;> rfl

@[simp]
theorem hasExactly_sortedFields (members fields) :
    hasExactly (sortedFields members) fields = hasExactly members fields := by
  have hperm := perm_insertionSort (fun left right : String × Value => left.1 ≤ right.1)
    (sortedMembers members)
  unfold hasExactly
  have hlength : (sortedFields members).length = members.length := by
    rw [sortedFields, hperm.length_eq, sortedMembers_eq_map, length_map]
  have hnames : ((sortedFields members).all fun member => fields.contains member.1) =
      members.all fun member => fields.contains member.1 := by
    rw [sortedFields, hperm.all_eq, sortedMembers_eq_map, all_map]
    rfl
  rw [hlength, hnames]

@[simp]
theorem object_sorted (value) : object (sorted value) = (object value).map sortedFields := by
  cases value <;> rfl

@[simp]
theorem array_sorted (value) : array (sorted value) = (array value).map (List.map sorted) := by
  cases value with
  | array items => rw [sorted_array]; rfl
  | object | null | bool | number | string => rfl

@[simp]
theorem string_sorted (value) : string (sorted value) = string value := by
  cases value <;> rfl

@[simp]
theorem isNull_sorted (value) : isNull (sorted value) = isNull value := by
  cases value <;> rfl

@[simp]
theorem isBool_sorted (value) : isBool (sorted value) = isBool value := by
  cases value <;> rfl

@[simp]
theorem smallInt_sorted (value) : smallInt (sorted value) = smallInt value := by
  cases value <;> rfl

@[simp]
theorem whole_sorted (value low high) : whole (sorted value) low high = whole value low high := by
  unfold whole
  rw [smallInt_sorted]

@[simp]
theorem isFullValue_sorted (pattern value) : isFullValue pattern (sorted value) = isFullValue pattern value := by
  cases value <;> rfl

@[simp]
theorem sorted_beq_bool (value flag) : (sorted value == .bool flag) = (value == .bool flag) := by
  cases value <;> rfl

@[simp]
theorem hasFields_sorted (value fields) : hasFields (sorted value) fields = hasFields value fields := by
  cases value with
  | object members => exact hasExactly_sortedFields members fields
  | array | null | bool | number | string => rfl

@[simp]
theorem encodedBytes_sorted [Platform] (value) : encodedBytes (sorted value) = encodedBytes value := by
  unfold encodedBytes
  rw [writeValue_sorted]

theorem writeValue_sortedMembers [Platform] (members) : writeValue canonicalOptions (.object (sortedMembers members)) =
      writeValue canonicalOptions (.object members) := by
  rw [writeValue, writeValue, writeMembers_eq_map, writeMembers_eq_map, sortedMembers_eq_map, map_map]
  simp only [Function.comp_def, writeValue_sorted]

theorem count_sorted (value) : count (value.map sorted) = count value := by
  cases value <;> simp [count]

theorem plainText_sorted (value maximum) : plainText (value.map sorted) maximum = plainText value maximum := by
  cases value <;> simp [plainText]

@[simp]
theorem scalarNode_sorted (members kind) : scalarNode (sortedFields members) kind = scalarNode members kind := by
  unfold scalarNode
  simp only [find?_sortedFields, hasExactly_sortedFields, field_sortedFields, isBool_sorted, plainText_sorted]
  cases (members.find? fun member => member.1 == "value").map Prod.snd <;> simp

/-- A fields node's entry with a plain name is named by a string, which no ordering changes. -/
theorem keyOf_sorted {entry key node maximum} (hentry : array entry = some [key, node])
    (hkey : plain key maximum = true) : keyOf (sorted entry) = keyOf entry := by
  unfold keyOf
  rw [array_sorted, hentry]
  cases key with
  | string => rfl
  | null | bool | number | array | object => cases hkey

theorem distinctNames_eq_keys (fields : List Value) :
    (fields.zipIdx.all fun entry => !(fields.take entry.2).any fun other => keyOf other == keyOf entry.1) =
      ((fields.map keyOf).zipIdx.all fun entry => !((fields.map keyOf).take entry.2).any (· == entry.1)) := by
  rw [zipIdx_map, all_map]
  simp only [← map_take, any_map]
  rfl

def entryNode (inner : Value → Bool) (entry : Value) : Bool :=
  match array entry with
  | some [key, node] => plain key 64 && inner node
  | _ => false

theorem plain_sorted (value maximum) : plain (sorted value) maximum = plain value maximum := by
  unfold plain
  rw [string_sorted]

section

variable {inner : Value → Bool}

theorem entryNode_sorted (hinner : ∀ node, inner (sorted node) = inner node) (entry) :
    entryNode inner (sorted entry) = entryNode inner entry := by
  unfold entryNode
  rw [array_sorted]
  match array entry with
  | none | some [] | some [_] | some (_ :: _ :: _ :: _) => rfl
  | some [key, node] =>
    simp only [Option.map_some, map_cons, map_nil]
    rw [plain_sorted, hinner]

theorem keyOf_sorted_of_entryNode {entry}
    (hentry : entryNode inner entry = true) : keyOf (sorted entry) = keyOf entry := by
  unfold entryNode at hentry
  split at hentry
  · rename_i key node hparts
    exact keyOf_sorted hparts (Bool.and_eq_true_iff.mp hentry).1
  · cases hentry

theorem containerNode_sorted (hinner : ∀ node, inner (sorted node) = inner node) (value members)
    (kind : Option String) :
    containerNode inner (sorted value) (sortedFields members) kind = containerNode inner value members kind := by
  unfold containerNode
  rw [get_sorted, count_sorted, hasExactly_sortedFields, hasExactly_sortedFields, field_sortedFields,
    field_sortedFields, array_sorted, array_sorted]
  congr 1
  split_ifs with hlist
  · congr 1
    cases array (field members "items") with
    | none => rfl
    | some items =>
      simp only [Option.map_some, Option.any_some, length_map, all_map, Function.comp_def, hinner]
  · congr 1
    cases array (field members "fields") with
    | none => rfl
    | some fields =>
      simp only [Option.map_some, Option.any_some, length_map]
      have hentries : ((fields.map sorted).all (entryNode inner)) = fields.all (entryNode inner) := by
        rw [all_map]
        congr 1
        exact funext fun entry => entryNode_sorted hinner entry
      rw [distinctNames_eq_keys, distinctNames_eq_keys]
      change (decide (fields.length ≤ 24) && (fields.map sorted).all (entryNode inner) && _) =
        (decide (fields.length ≤ 24) && fields.all (entryNode inner) && _)
      rw [hentries]
      -- names are compared only where every entry has a plain one
      by_cases hall : fields.all (entryNode inner) = true
      · have hkeys : (fields.map sorted).map keyOf = fields.map keyOf := by
          rw [map_map]
          exact map_congr_left fun entry hentry =>
            keyOf_sorted_of_entryNode (all_eq_true.mp hall entry hentry)
        rw [hkeys]
      · rw [Bool.not_eq_true] at hall
        rw [hall, Bool.and_false, Bool.false_and, Bool.false_and]

theorem outputNode_zero (value) :
    outputNode 0 value = (object value).any fun members =>
      let kind := (value.get "kind").bind string
      if kind == some "list" || kind == some "fields" then false else scalarNode members kind := rfl

theorem outputNode_succ (levels value) :
    outputNode (levels + 1) value = (object value).any fun members =>
      let kind := (value.get "kind").bind string
      if kind == some "list" || kind == some "fields" then
        containerNode (outputNode levels) value members kind
      else scalarNode members kind := rfl

@[simp]
theorem outputNode_sorted (levels value) : outputNode levels (sorted value) = outputNode levels value := by
  have hkind (value : Value) :
      ((sorted value).get "kind").bind string = (value.get "kind").bind string := by
    rw [get_sorted]
    cases value.get "kind" <;> simp
  induction levels generalizing value with
  | zero =>
    rw [outputNode_zero, outputNode_zero, object_sorted, hkind]
    cases object value with
    | none => rfl
    | some members => simp
  | succ levels ih =>
    rw [outputNode_succ, outputNode_succ, object_sorted, hkind]
    cases object value with
    | none => rfl
    | some members =>
      simp only [Option.map_some, Option.any_some]
      rw [containerNode_sorted ih, scalarNode_sorted]

@[simp]
theorem exactOutput_sorted [Platform] (value) : exactOutput (sorted value) = exactOutput value := by
  unfold exactOutput exactObject
  rw [object_sorted]
  cases object value with
  | none => rfl
  | some members =>
    by_cases hexact : hasExactly members ["step", "state", "value", "truncated"] = true
    · simp [hexact, position]
    · simp [hexact]

end

open Parser Library

section

variable {read : Reader Value} {value : Value}

/-- A value none of whose objects names a field twice. -/
inductive Unique : Value → Prop where
  | null : Unique .null
  | bool (flag : Bool) : Unique (.bool flag)
  | number (number : Number) : Unique (.number number)
  | string (text : String) : Unique (.string text)
  | array {items} (hitems : ∀ item ∈ items, Unique item) : Unique (.array items)
  | object {members} (hnames : (members.map Prod.fst).Nodup)
      (hmembers : ∀ member ∈ members, Unique member.2) : Unique (.object members)

section

variable {α : Type}

def Returns (read : Reader α) (holds : α → Prop) : Prop :=
  ∀ parser result after, read parser = .ok (result, after) → holds result

theorem Returns.elements {read : Reader α} {holds} (h : Returns read holds) (close) (count : Nat) :
    Returns (Parser.elements read close count) fun items => ∀ item ∈ items, holds item := by
  induction count with
  | zero =>
    intro parser result after hread
    cases hread
  | succ count ih =>
    intro parser result after hread
    obtain ⟨⟨first, next⟩, hfirst, hread⟩ := bind_eq_ok.mp hread
    obtain ⟨⟨closed, next'⟩, -, hread⟩ := bind_eq_ok.mp hread
    have hholds := h _ _ _ hfirst
    cases closed with
    | true =>
      obtain ⟨rfl, -⟩ := Prod.mk.inj (Except.ok.inj hread)
      exact forall_mem_singleton.mpr hholds
    | false =>
      obtain ⟨⟨others, last⟩, hothers, hread⟩ := bind_eq_ok.mp hread
      obtain ⟨rfl, -⟩ := Prod.mk.inj (Except.ok.inj hread)
      exact forall_mem_cons.mpr ⟨hholds, ih _ _ _ hothers⟩

theorem Returns.container {read : Reader α} {holds} (h : Returns read holds) (close) :
    Returns (container read close) fun items => ∀ item ∈ items, holds item := by
  intro parser result after hread
  unfold Parser.container at hread
  dsimp only at hread
  split at hread
  · obtain ⟨rfl, -⟩ := Prod.mk.inj (Except.ok.inj hread)
    simp
  · exact h.elements close _ _ _ _ hread

theorem Returns.member {holds} (h : Returns read holds) : Returns (member read) fun member => holds member.2 := by
  intro parser result after hread
  unfold Parser.member at hread
  split at hread
  · obtain ⟨⟨key, next⟩, -, hread⟩ := bind_eq_ok.mp hread
    dsimp only at hread
    split at hread
    · obtain ⟨⟨value, last⟩, hvalue, heq⟩ := map_eq_ok.mp hread
      obtain ⟨rfl, -⟩ := Prod.mk.inj heq
      exact h _ _ _ hvalue
    · cases hread
  · cases hread

theorem nodup_of_repeats {keys} (hsorted : keys.Pairwise (· ≤ ·)) (h : repeats keys = false) : keys.Nodup := by
  induction keys with
  | nil => exact nodup_nil
  | cons first rest ih =>
    obtain ⟨hfirst, hrest⟩ := pairwise_cons.mp hsorted
    cases rest with
    | nil => exact nodup_singleton first
    | cons second rest =>
      rw [repeats, Bool.or_eq_false_iff] at h
      refine nodup_cons.mpr ⟨?_, ih hrest h.2⟩
      intro hmem
      -- a later equal name lies past the next one, which then equals it too
      have hle : first ≤ second := hfirst second mem_cons_self
      have hge : second ≤ first := by
        rcases mem_cons.mp hmem with heq | hlater
        · exact heq ▸ String.le_refl _
        · exact (pairwise_cons.mp hrest).1 first hlater
      exact beq_eq_false_iff_ne.mp h.1 (String.le_antisymm hle hge)

theorem unique_eq_ok {members offset result}
    (h : Parser.unique members offset = .ok result) : result = .object members ∧ (members.map Prod.fst).Nodup := by
  obtain ⟨hrepeats, h⟩ := guard_eq_ok.mp h
  refine ⟨(Except.ok.inj h).symm, ?_⟩
  have hnodup := nodup_of_repeats (pairwise_insertionSort (· ≤ ·) (members.map Prod.fst))
    (Bool.not_eq_true _ ▸ hrepeats)
  exact (perm_insertionSort _ _).nodup_iff.mp hnodup

theorem Returns.object (h : Returns read Unique) : Returns (Parser.object read) Unique := by
  intro parser result after hread
  obtain ⟨⟨members, next⟩, hmembers, hread⟩ := bind_eq_ok.mp hread
  obtain ⟨value, hvalue, hread⟩ := bind_eq_ok.mp hread
  obtain ⟨rfl, -⟩ := Prod.mk.inj (Except.ok.inj hread)
  obtain ⟨rfl, hnodup⟩ := unique_eq_ok hvalue
  exact .object hnodup (h.member.container '}' _ _ _ hmembers)

theorem Returns.array (h : Returns read Unique) : Returns (Parser.array read) Unique := by
  intro parser result after hread
  obtain ⟨⟨items, next⟩, hitems, heq⟩ := map_eq_ok.mp hread
  obtain ⟨rfl, -⟩ := Prod.mk.inj heq
  exact .array (h.container ']' _ _ _ hitems)

theorem Returns.literal {holds word} (h : holds value) : Returns (literal word value) holds := by
  intro parser result after hread
  unfold Parser.literal at hread
  split at hread
  · obtain ⟨rfl, -⟩ := Prod.mk.inj (Except.ok.inj hread)
    exact h
  · cases hread

variable [Platform]

theorem Returns.dispatch {array object} (harray : Returns array Unique) (hobject : Returns object Unique) :
    Returns (dispatch array object) Unique := by
  intro parser result after hread
  unfold Parser.dispatch at hread
  split at hread
  · exact hobject _ _ _ hread
  · exact harray _ _ _ hread
  · obtain ⟨read, -, heq⟩ := map_eq_ok.mp hread
    obtain ⟨rfl, -⟩ := Prod.mk.inj heq
    exact .string _
  · exact Returns.literal (.bool true) _ _ _ hread
  · exact Returns.literal (.bool false) _ _ _ hread
  · exact Returns.literal .null _ _ _ hread
  · split at hread
    · obtain ⟨read, -, heq⟩ := map_eq_ok.mp hread
      obtain ⟨rfl, -⟩ := Prod.mk.inj heq
      exact .number _
    · cases hread
  · cases hread

theorem returns_value (levels) : Returns (Parser.value levels) Unique := by
  induction levels with
  | zero =>
    refine Returns.dispatch ?_ ?_ <;>
    · intro parser result after hread
      cases hread
  | succ levels ih => exact Returns.dispatch ih.array ih.object

/-- A document the strict reader accepts names no field twice. -/
theorem unique_of_parse {text result} (h : parse text = .ok result) : Unique result := by
  obtain ⟨-, h⟩ := guard_eq_ok.mp h
  obtain ⟨⟨read, after⟩, hread, h⟩ := bind_eq_ok.mp h
  have hunique := returns_value maxDepth _ _ _ hread
  dsimp only at h
  split at h
  · cases h
    exact hunique
  · cases h

end

variable {members : List (String × Value)}

theorem mem_iff_field (hnames : (members.map Prod.fst).Nodup) {name} :
    (name, value) ∈ members ↔ name ∈ members.map Prod.fst ∧ value = field members name := by
  have hfind : ∀ found, (name, found) ∈ members → field members name = found := by
    intro found hfound
    induction members with
    | nil => cases hfound
    | cons first rest ih =>
      obtain ⟨hfirst, hrest⟩ := nodup_cons.mp hnames
      rcases mem_cons.mp hfound with rfl | hlater
      · simp [field]
      · have hne : first.1 ≠ name := fun heq => hfirst (heq ▸ mem_map_of_mem hlater)
        have hskip : (first.1 == name) = false := beq_eq_false_iff_ne.mpr hne
        simpa [field, find?_cons, hskip] using ih hrest hlater
  constructor
  · intro hmem
    exact ⟨mem_map_of_mem hmem, (hfind value hmem).symm⟩
  · rintro ⟨hname, rfl⟩
    obtain ⟨⟨found, other⟩, hmem, rfl⟩ := mem_map.mp hname
    rwa [hfind other hmem]

theorem field_of_notMem {name} (h : name ∉ members.map Prod.fst) : field members name = .null := by
  have hnone : members.find? (fun member => member.1 == name) = none := by
    refine find?_eq_none.mpr fun member hmember heq => h ?_
    exact beq_iff_eq.mp heq ▸ mem_map_of_mem hmember
  rw [field, hnone]
  rfl

/-- Members that name each field once, in name order, are determined by the names and the value of
each. -/
theorem sortedFields_ext {others} (hmembers : (members.map Prod.fst).Nodup) (hothers : (others.map Prod.fst).Nodup)
    (hnames : ∀ name, name ∈ members.map Prod.fst ↔ name ∈ others.map Prod.fst)
    (hfields : ∀ name ∈ members.map Prod.fst, sorted (field members name) = sorted (field others name)) :
    sortedFields members = sortedFields others := by
  have hkeys : ∀ entries : List (String × Value),
      (entries.map fun entry => (entry.1, sorted entry.2)).map Prod.fst = entries.map Prod.fst := by
    intro entries
    rw [map_map]
    rfl
  have hperm : (sortedMembers members).Perm (sortedMembers others) := by
    rw [sortedMembers_eq_map, sortedMembers_eq_map]
    refine (perm_ext_iff_of_nodup (.of_map Prod.fst (by rwa [hkeys])) (.of_map Prod.fst (by rwa [hkeys]))).mpr ?_
    rintro ⟨name, value⟩
    have hentry : ∀ {entries : List (String × Value)}, (entries.map Prod.fst).Nodup →
        ((name, value) ∈ entries.map (fun entry => (entry.1, sorted entry.2)) ↔
          name ∈ entries.map Prod.fst ∧ value = sorted (field entries name)) := by
      intro entries hentries
      constructor
      · intro hmem
        obtain ⟨⟨found, inner⟩, hinner, heq⟩ := mem_map.mp hmem
        obtain ⟨rfl, rfl⟩ := Prod.mk.inj heq
        obtain ⟨hname, rfl⟩ := (mem_iff_field hentries).mp hinner
        exact ⟨hname, rfl⟩
      · rintro ⟨hname, rfl⟩
        exact mem_map.mpr ⟨_, (mem_iff_field hentries).mpr ⟨hname, rfl⟩, rfl⟩
    rw [hentry hmembers, hentry hothers, ← hnames name]
    refine and_congr_right fun hname => ?_
    rw [hfields name hname]
  have hsorted : ∀ entries : List (String × Value), (entries.insertionSort fun left right =>
      left.1 ≤ right.1).Pairwise fun left right => left.1 ≤ right.1 :=
    fun entries => pairwise_insertionSort _ _
  have hnodup : ((sortedFields members).map Prod.fst).Nodup := by
    have hmap := (perm_insertionSort (fun left right : String × Value => left.1 ≤ right.1)
      (sortedMembers members)).map Prod.fst
    refine hmap.nodup_iff.mpr ?_
    rw [sortedMembers_eq_map, hkeys]
    exact hmembers
  refine List.Perm.eq_of_pairwise ?_ (hsorted _) (hsorted _)
    ((perm_insertionSort _ _).trans (hperm.trans (perm_insertionSort _ _).symm))
  intro left right hleft hright hle hge
  have hright' : right ∈ sortedFields members :=
    ((perm_insertionSort _ _).trans (hperm.trans (perm_insertionSort _ _).symm)).mem_iff.mpr hright
  exact inj_on_of_nodup_map hnodup hleft hright' (String.le_antisymm hle hge)

/-- Members whose entries are, up to order, the fields of others under every name of theirs are those
others, up to order. -/
theorem sortedFields_of_entries {others} (hmembers : (members.map Prod.fst).Nodup)
    (hothers : (others.map Prod.fst).Nodup) (hentries : ∀ entry ∈ members,
      entry.1 ∈ others.map Prod.fst ∧ sorted entry.2 = sorted (field others entry.1))
    (hnames : ∀ name ∈ others.map Prod.fst, name ∈ members.map Prod.fst) :
    sortedFields members = sortedFields others := by
  refine sortedFields_ext hmembers hothers (fun name => ⟨?_, hnames name⟩) ?_
  · intro hname
    obtain ⟨entry, hentry, rfl⟩ := mem_map.mp hname
    exact (hentries entry hentry).1
  · intro name hname
    obtain ⟨⟨found, value⟩, hentry, rfl⟩ := mem_map.mp hname
    rw [← ((mem_iff_field hmembers).mp hentry).2]
    exact (hentries _ hentry).2

theorem names_of_hasExactly {names} (hmembers : (members.map Prod.fst).Nodup) (h : hasExactly members names = true)
    (name) : name ∈ members.map Prod.fst ↔ name ∈ names := by
  rw [hasExactly, Bool.and_eq_true, beq_iff_eq, all_eq_true] at h
  have hsubset : members.map Prod.fst ⊆ names := by
    intro found hfound
    obtain ⟨member, hmember, rfl⟩ := mem_map.mp hfound
    simpa using h.2 member hmember
  have hsubperm := subperm_of_subset hmembers hsubset
  have hlength : names.length ≤ (members.map Prod.fst).length := by rw [length_map, h.1]
  exact (hsubperm.perm_of_length_le hlength).mem_iff

theorem eq_object_of_object (h : object value = some members) : value = .object members := by
  cases value with
  | object found => rw [Option.some.inj h]
  | null | bool | number | string | array => cases h

theorem eq_text_of_string {found} (h : string value = some found) : value = text found := by
  cases value with
  | string text => rw [Option.some.inj h]; rfl
  | null | bool | number | array | object => cases h

theorem eq_int_of_smallInt {found} (h : smallInt value = some found) : value = int found := by
  cases value with
  | number number =>
    cases number with
    | int integer => rw [Option.some.inj h]; rfl
    | bigInt | float => cases h
  | null | bool | string | array | object => cases h

theorem Unique.field {members} (h : ∀ member ∈ members, Unique member.2) (name) : Unique (field members name) := by
  unfold Protocol.field
  cases hfound : members.find? (fun member => member.1 == name) with
  | none => exact .null
  | some member => exact h member (mem_of_find?_eq_some hfound)

theorem sorted_of_exactObject {names} (hvalue : Unique value) (hnames : names.Nodup)
    (h : exactObject value names = some members) :
    sorted value = sorted (objectOf (names.map fun name => (name, field members name))) := by
  obtain ⟨hobject, hexact⟩ := Option.filter_eq_some_iff.mp h
  obtain rfl := eq_object_of_object hobject
  cases hvalue with
  | object hmembers =>
    have hkeys : (names.map fun name => (name, field members name)).map Prod.fst = names := by
      rw [map_map]
      exact map_id names
    have hnodup : ((names.map fun name => (name, field members name)).map Prod.fst).Nodup := hkeys.symm ▸ hnames
    refine congrArg Value.object (sortedFields_ext hmembers hnodup ?_ ?_)
    · intro name
      rw [hkeys]
      exact names_of_hasExactly hmembers hexact name
    · intro name hname
      have hin := (names_of_hasExactly hmembers hexact name).mp hname
      have hentry : (name, field members name) ∈ names.map fun name => (name, field members name) :=
        mem_map.mpr ⟨name, hin, rfl⟩
      rw [← ((mem_iff_field hnodup).mp hentry).2]

end

/-- Equality up to the order of object members; numbers by kind and exact value, doubles bit for bit. -/
inductive Reordered : Value → Value → Prop where
  | same (value : Value) : Reordered value value
  | array {items others} (hlength : items.length = others.length)
      (hitems : ∀ index (h : index < items.length), Reordered items[index] others[index]) :
      Reordered (.array items) (.array others)
  | object {members others} (hnames : (members.map Prod.fst).Perm (others.map Prod.fst))
      (hmembers : ∀ member ∈ members, ∀ other ∈ others, member.1 = other.1 → Reordered member.2 other.2) :
      Reordered (.object members) (.object others)

variable {right left : Value}

section

variable [Platform]

theorem reordered_of_sorted (hleft : Decoded left) (hright : Decoded right)
    (h : sorted left = sorted right) : Reordered left right := by
  induction hleft generalizing right with
  | null | bool | int | bigInt | float | string => cases hright <;> simp_all [sorted, Reordered.same]
  | @array items _ ih =>
    cases hright <;> simp only [sorted, sortedItems_eq_map, Value.array.injEq, reduceCtorEq] at h
    next others hothers =>
    have hlength : items.length = others.length := by simpa using congrArg List.length h
    refine .array hlength fun index hindex =>
      ih _ (getElem_mem hindex) (hothers _ (getElem_mem (hlength ▸ hindex))) ?_
    have hget := congrArg (·[index]?) h
    simpa [hindex, hlength ▸ hindex] using hget
  | @object members hunique _ ih =>
    cases hright <;> simp only [sorted, sortedMembers_eq_map, Value.object.injEq, reduceCtorEq] at h
    next others hothers hvalues =>
    have hperm : (members.map fun member => (member.1, sorted member.2)).Perm
        (others.map fun member => (member.1, sorted member.2)) :=
      (perm_insertionSort _ _).symm.trans ((List.Perm.of_eq h).trans (perm_insertionSort _ _))
    have hnames := hperm.map Prod.fst
    rw [map_map, map_map] at hnames
    refine .object hnames fun member hmember other hother hname => ih member hmember (hvalues other hother) ?_
    obtain ⟨found, hfound, heq⟩ := mem_map.mp (hperm.mem_iff.mp (mem_map_of_mem hmember))
    obtain ⟨hkey, hvalue⟩ := Prod.mk.inj heq
    rw [← inj_on_of_nodup_map hothers hfound hother (hkey.trans hname)]
    exact hvalue.symm

theorem sorted_of_reordered (h : Reordered left right) (hleft : Decoded left)
    (hright : Decoded right) : sorted left = sorted right := by
  induction h with
  | same => rfl
  | array hlength _ ih =>
    cases hleft with
    | array hitems =>
    cases hright with
    | array hothers =>
    rw [sorted_array, sorted_array]
    refine congrArg Value.array (ext_getElem (by simpa using hlength) fun index hindex hother => ?_)
    rw [length_map] at hindex hother
    simpa using ih index hindex (hitems _ (getElem_mem hindex)) (hothers _ (getElem_mem hother))
  | @object members others hnames _ ih =>
    cases hleft with
    | object hunique hmembers =>
    cases hright with
    | object hothers hvalues =>
    refine congrArg Value.object (sortedFields_of_entries hunique hothers (fun entry hentry => ?_)
      fun name => hnames.mem_iff.mpr)
    have hname := hnames.mem_iff.mp (mem_map_of_mem hentry)
    have hfield := (mem_iff_field hothers).mpr ⟨hname, rfl⟩
    exact ⟨hname, ih entry hentry _ hfield rfl (hmembers entry hentry) (hvalues _ hfield)⟩

theorem sorted_of_canonical (hleft : Decoded left) (hright : Decoded right)
    (h : canonical left = canonical right) : sorted left = sorted right := by
  have htext : writeValue canonicalOptions left = writeValue canonicalOptions right := String.ofList_injective h
  -- both texts are read at once, with levels enough for either value
  obtain ⟨-, hreads⟩ := value_element canonicalOptions hleft _ (le_max_left (nesting left) (nesting right))
  obtain ⟨-, hothers⟩ := value_element canonicalOptions hright _ (le_max_right (nesting left) (nesting right))
  obtain ⟨after, hread⟩ := hreads [] 0 fun next hnext => by cases hnext
  obtain ⟨later, hother⟩ := hothers [] 0 fun next hnext => by cases hnext
  rw [htext, hother] at hread
  exact (Prod.mk.inj (Except.ok.inj hread)).1.symm

/-- The reader refuses more opening brackets than it has levels. -/
theorem value_brackets (levels pos rest) :
    (value levels ⟨List.replicate (levels + 1) '[' ++ rest, pos⟩).isOk = false := by
  induction levels generalizing pos with
  | zero => rfl
  | succ levels ih =>
    have hinner := ih (pos + 1)
    change Except.isOk (Except.map _ (value levels ⟨List.replicate (levels + 1) '[' ++ rest, pos + 1⟩ >>= _)) = false
    generalize value levels ⟨List.replicate (levels + 1) '[' ++ rest, pos + 1⟩ = read at hinner
    cases read with
    | ok => cases hinner
    | error => rfl

def nestedArrays : Nat → Value
  | 0 => .null
  | depth + 1 => .array [nestedArrays depth]

theorem decoded_nestedArrays (depth) : Decoded (nestedArrays depth) := by
  induction depth with
  | zero => exact .null
  | succ depth ih => exact .array (forall_mem_singleton.mpr ih)

theorem exists_writeValue_nestedArrays (depth) :
    ∃ rest, writeValue canonicalOptions (nestedArrays depth) = List.replicate depth '[' ++ rest := by
  induction depth with
  | zero => exact ⟨_, rfl⟩
  | succ depth ih =>
    obtain ⟨rest, hrest⟩ := ih
    exact ⟨rest ++ [']'], by simp [nestedArrays, writeValue, writeItems, hrest, replicate_succ]⟩

end

attribute [local instance] Routines.utcPlatform

end ShimpzTeams.Protocol
