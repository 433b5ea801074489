import ShimpzTeams.Routines.References
import ShimpzTeams.Routines.Recorder.Provenance

/-!
# One decision of what may be secret

The walkers that keep a value, refuse a literal, project a result, redact a
preview and collect a result's secrets are five recursions of their own. Each is
shown to read one cover of the value: the tree of its positions, each hidden,
too deep to follow, or shown.
-/

namespace ShimpzTeams.Routines.Recorder

open StrictJson Protocol Library List

variable {value : Value} {levels : Nat} {sub : Sub} {name : String}

section

/-- The positions of a value: hidden, too deep to follow, without children, or followed. -/
inductive Cover where
  | hidden (value : Value)
  | deep (value : Value)
  | whole (value : Value)
  | object (members : List (String × Cover))
  | array (items : List Cover)

/-- What is made of each kind of position. -/
structure Reading (β : Type) where
  hidden : Value → β
  deep : Value → β
  whole : Value → β
  object : List (String × β) → β
  array : List β → β

variable {β : Type}

mutual

def Cover.read (reading : Reading β) : Cover → β
  | .hidden value => reading.hidden value
  | .deep value => reading.deep value
  | .whole value => reading.whole value
  | .object members => reading.object (readMembers reading members)
  | .array items => reading.array (readItems reading items)

def readMembers (reading : Reading β) : List (String × Cover) → List (String × β)
  | [] => []
  | (key, member) :: rest => (key, member.read reading) :: readMembers reading rest

def readItems (reading : Reading β) : List Cover → List β
  | [] => []
  | item :: rest => item.read reading :: readItems reading rest

end

theorem read_object (reading : Reading β) (members) : (Cover.object members).read reading =
      reading.object (members.map fun member => (member.1, member.2.read reading)) := by
  have hmembers : ∀ members, readMembers reading members =
      members.map fun member => (member.1, member.2.read reading) := by
    intro members
    induction members with
    | nil => rfl
    | cons member rest ih => rw [readMembers, ih, map_cons]
  rw [Cover.read, hmembers]

theorem read_array (reading : Reading β) (items) :
    (Cover.array items).read reading = reading.array (items.map (Cover.read reading)) := by
  have hitems : ∀ items, readItems reading items = items.map (Cover.read reading) := by
    intro items
    induction items with
    | nil => rfl
    | cons item rest ih => rw [readItems, ih, map_cons]
  rw [Cover.read, hitems]

end

def original : Reading Value := ⟨id, id, id, .object, .array⟩

/-- The value with every hidden or deep position emptied. -/
def emptied : Reading Value := ⟨fun _ => .null, fun _ => .null, id, .object, .array⟩

def pointers : Reading (String → List String) where
  hidden := fun _ place => [place]
  deep := fun _ place => [place]
  whole := fun _ _ => []
  object := fun members place => members.flatMap fun member => member.2 (memberPointer place member.1)
  array := fun items place => items.zipIdx.flatMap fun item => item.1 (itemPointer place item.2)

def hides : Reading Bool where
  hidden := fun _ => true
  deep := fun _ => true
  whole := fun _ => false
  object := fun members => members.any Prod.snd
  array := fun items => items.any id

def projected [Platform] : Reading Value where
  hidden := fun _ => outputRedacted
  deep := fun _ => outputElided
  whole := safeScalar
  object := fun members =>
    objectOf [("kind", text "fields"), ("fields", .array ((sortedByKey members).map fun member =>
      .array [text member.1, member.2])), ("omitted", int 0)]
  array := fun items => objectOf [("kind", text "list"), ("items", .array items), ("omitted", int 0)]

/-- The copy, members in name order, with exactly the hidden and deep positions replaced. -/
def copied : Reading Value where
  hidden := fun _ => text inputRedacted
  deep := fun _ => text inputRedacted
  whole := id
  object := fun members => .object (sortedByKey members)
  array := .array

def secrets : Reading (List String) where
  hidden := strings
  deep := strings
  whole := fun _ => []
  object := fun members => (members.map Prod.snd).flatten
  array := List.flatten

mutual

theorem pointers_eq_nil : (cover : Cover) → (place : String) →
    (cover.read pointers place = [] ↔ cover.read hides = false)
  | .hidden _, _ => by simp [Cover.read, pointers, hides]
  | .deep _, _ => by simp [Cover.read, pointers, hides]
  | .whole _, _ => by simp [Cover.read, pointers, hides]
  | .object members, place => membersPointers_eq_nil members place
  | .array items, place => itemsPointers_eq_nil items 0 place

theorem membersPointers_eq_nil : (members : List (String × Cover)) → (place : String) →
    (((readMembers pointers members).flatMap fun member => member.2 (memberPointer place member.1)) = [] ↔
      (readMembers hides members).any Prod.snd = false)
  | [], _ => by simp [readMembers]
  | (key, member) :: rest, place => by
    rw [readMembers, readMembers, flatMap_cons, append_eq_nil_iff, any_cons, Bool.or_eq_false_iff]
    exact and_congr (pointers_eq_nil member _) (membersPointers_eq_nil rest place)

theorem itemsPointers_eq_nil : (items : List Cover) → (first : Nat) → (place : String) →
    ((((readItems pointers items).zipIdx first).flatMap fun item => item.1 (itemPointer place item.2)) = [] ↔
      (readItems hides items).any id = false)
  | [], _, _ => by simp [readItems]
  | item :: rest, first, place => by
    rw [readItems, readItems, zipIdx_cons, flatMap_cons, append_eq_nil_iff, any_cons, Bool.or_eq_false_iff]
    exact and_congr (pointers_eq_nil item _) (itemsPointers_eq_nil rest (first + 1) place)

end

section

variable [Platform] {root : Value} {levels : Nat} {value : Value} {sub : Sub} {name : String}
  {candidates : List Value}

/-- A walker that decides as the cover does makes of a hidden value what it makes of all of them. -/
theorem hidden_of_ok {β hidden result} {shown : List Value → Except PlanError β}
    (hsecret : (secretAt root sub name value).2 = true) (h : (do
      let candidates ← applicable root sub (.value value)
      if secretPosition root name candidates then .ok hidden else shown candidates) = .ok result) :
    result = hidden := by
  obtain ⟨candidates, happlied, h⟩ := bind_eq_ok.mp h
  rw [secretAt_ok happlied] at hsecret
  rw [if_pos hsecret] at h
  exact (Except.ok.inj h).symm

theorem shown_of_ok {β hidden result} {shown : List Value → Except PlanError β}
    (happlied : applicable root sub (.value value) = .ok candidates)
    (hshown : secretPosition root name candidates = false) (h : (do
      let candidates ← applicable root sub (.value value)
      if secretPosition root name candidates then .ok hidden else shown candidates) = .ok result) :
    shown candidates = .ok result := by
  rw [happlied, ok_bind, hshown, if_neg Bool.false_ne_true] at h
  exact h

variable [SchemaEngine]

/-- The cover of a value at a position, with some levels of nesting left; what cannot be walked is
hidden. -/
def coverAt (root : Value) : Nat → Value → Sub → String → Cover
  | 0, value, _, _ => .deep value
  | levels + 1, value, sub, name =>
    match applicable root sub (.value value) with
    | .error _ => .hidden value
    | .ok candidates =>
      if secretPosition root name candidates then .hidden value
      else
        match value with
        | .object found => .object (found.map fun member =>
          (member.1, match memberSchemas candidates member.1 with
            | .error _ => .hidden member.2
            | .ok schemas => coverAt root levels member.2 schemas member.1))
        | .array items => .array (items.zipIdx.map fun item =>
          coverAt root levels item.1 (itemSchemas candidates item.2) name)
        | _ => .whole value

def memberCover (root : Value) (levels : Nat) (candidates : List Value) (member : String × Value) : Cover :=
  match memberSchemas candidates member.1 with
  | .error _ => .hidden member.2
  | .ok schemas => coverAt root levels member.2 schemas member.1

/-- A value without children. -/
def isScalar : Value → Bool
  | .array _ => false
  | .object _ => false
  | _ => true

inductive CoverStep (root : Value) (levels : Nat) (sub : Sub) (name : String) : Value → Cover → Prop
  | hidden {value : Value} (hsecret : (secretAt root sub name value).2 = true) :
      CoverStep root levels sub name value (.hidden value)
  | object {found candidates}
      (happlied : applicable root sub (.value (.object found)) = .ok candidates)
      (hshown : secretPosition root name candidates = false) :
      CoverStep root levels sub name (.object found)
        (.object (found.map fun member => (member.1, memberCover root levels candidates member)))
  | array {items candidates}
      (happlied : applicable root sub (.value (.array items)) = .ok candidates)
      (hshown : secretPosition root name candidates = false) :
      CoverStep root levels sub name (.array items) (.array (items.zipIdx.map fun item =>
        coverAt root levels item.1 (itemSchemas candidates item.2) name))
  | scalar {value : Value} {candidates} (hscalar : isScalar value = true)
      (happlied : applicable root sub (.value value) = .ok candidates)
      (hshown : secretPosition root name candidates = false) :
      CoverStep root levels sub name value (.whole value)

theorem coverStep {cover} (hcover : coverAt root (levels + 1) value sub name = cover) :
    CoverStep root levels sub name value cover := by
  subst hcover
  unfold coverAt
  cases happlied : applicable root sub (.value value) with
  | error refusal => exact .hidden (by rw [secretAt_error happlied])
  | ok candidates =>
    dsimp only
    cases hsecret : secretPosition root name candidates with
    | true =>
      rw [if_pos rfl]
      exact .hidden (by rw [secretAt_ok happlied, hsecret])
    | false =>
      rw [if_neg Bool.false_ne_true]
      cases value with
      | object => exact .object happlied hsecret
      | array => exact .array happlied hsecret
      | null | bool | number | string => exact .scalar rfl happlied hsecret

theorem memberCover_ok {member schemas} (h : memberSchemas candidates member.1 = .ok schemas) :
    memberCover root levels candidates member = coverAt root levels member.2 schemas member.1 := by
  simp only [memberCover, h]

end

section

variable [Platform] {protectedValues : List String}

structure Plain (protectedValues : List String) (value : Value) : Prop where
  credential : holdsCredential value = false
  protectedText : exposes protectedValues value = false

theorem Plain.item {items} (h : Plain protectedValues (.array items)) : ∀ item ∈ items, Plain protectedValues item := by
  obtain ⟨hcredential, hprotected⟩ := h
  rw [holdsCredential] at hcredential
  rw [exposes] at hprotected
  induction items with
  | nil => simp
  | cons first rest ih =>
    rw [itemsHoldCredential, Bool.or_eq_false_iff] at hcredential
    rw [itemsExpose, Bool.or_eq_false_iff] at hprotected
    rw [forall_mem_cons]
    exact ⟨⟨hcredential.1, hprotected.1⟩, ih hcredential.2 hprotected.2⟩

theorem Plain.member {members} (h : Plain protectedValues (.object members)) :
    ∀ member ∈ members, resemblesCredential member.1 = false ∧
      protects member.1 protectedValues = false ∧ Plain protectedValues member.2 := by
  obtain ⟨hcredential, hprotected⟩ := h
  rw [holdsCredential] at hcredential
  rw [exposes] at hprotected
  induction members with
  | nil => simp
  | cons first rest ih =>
    obtain ⟨key, item⟩ := first
    rw [membersHoldCredential, Bool.or_eq_false_iff, Bool.or_eq_false_iff] at hcredential
    rw [membersExpose, Bool.or_eq_false_iff, Bool.or_eq_false_iff] at hprotected
    rw [forall_mem_cons]
    exact ⟨⟨hcredential.1.1, hprotected.1.1, hcredential.1.2, hprotected.1.2⟩, ih hcredential.2 hprotected.2⟩

theorem Plain.not_unsafe (h : Plain protectedValues value) : unsafeValue protectedValues value = false := by
  cases value with
  | object found =>
    rw [unsafeValue, any_eq_false]
    intro member hmember
    obtain ⟨hcredential, hprotected, -⟩ := h.member member hmember
    rw [hcredential, hprotected]
    exact Bool.false_ne_true
  | string found =>
    have hcredential : resemblesCredential found = false := h.credential
    have hprotected : protects found protectedValues = false := h.protectedText
    rw [unsafeValue, hcredential, hprotected]
    rfl
  | null | bool | number | array => rfl

theorem safeEntries_plain {member}
    {node : String × Value → Value} {redactedKeys entries shown} (h : safeEntries protectedValues member redactedKeys entries = .ok shown)
    (hplain : ∀ entry ∈ entries, resemblesCredential entry.1 = false ∧ protects entry.1 protectedValues = false)
    (hnode : ∀ entry ∈ entries, ∀ result, member entry.1 entry.2 = .ok result → result = node entry) :
    shown = entries.map fun entry => .array [text entry.1, node entry] := by
  induction entries generalizing shown with
  | nil => exact (Except.ok.inj h).symm
  | cons first rest ih =>
    rw [forall_mem_cons] at hplain hnode
    obtain ⟨⟨hcredential, hprotected⟩, hrest⟩ := hplain
    rw [safeEntries, hcredential, hprotected] at h
    obtain ⟨result, hfirst, h⟩ := bind_eq_ok.mp h
    obtain ⟨later, hlater, h⟩ := bind_eq_ok.mp h
    cases h
    rw [map_cons, hnode.1 result hfirst, ih hlater hrest hnode.2]

end

theorem zipIdx_zipIdx {α} (items : List α) : items.zipIdx.zipIdx = items.zipIdx.map fun item => (item, item.2) := by
  apply ext_getElem
  · simp
  · intro index _ _
    simp

theorem anyOk_eq_any {α check holds} {items : List α} {found} (h : anyOk check items = .ok found)
    (hchecked : ∀ item ∈ items, ∀ result, check item = .ok result → result = holds item) : found = items.any holds := by
  induction items with
  | nil => exact (Except.ok.inj h).symm
  | cons first rest ih =>
    rw [forall_mem_cons] at hchecked
    obtain ⟨result, hfirst, h⟩ := bind_eq_ok.mp h
    rw [any_cons, ← hchecked.1 result hfirst]
    cases result with
    | true => exact (Except.ok.inj h).symm
    | false => exact ih h hchecked.2

section

variable [Platform] [SchemaEngine] {root : Value} {protectedValues : List String}

theorem redacted_cover {copy} (hplain : Plain protectedValues value)
    (h : redacted root levels value sub name = .ok copy) : copy = (coverAt root levels value sub name).read copied := by
  induction levels generalizing value sub name copy with
  | zero => exact (Except.ok.inj h).symm
  | succ levels ih =>
    generalize hcover : coverAt root (levels + 1) value sub name = cover
    cases coverStep hcover with
    | hidden hsecret => exact hidden_of_ok hsecret h
    | @object found candidates happlied hshown =>
      obtain ⟨results, hmembers, h⟩ := bind_eq_ok.mp (shown_of_ok happlied hshown h)
      cases h
      rw [read_object, map_map]
      refine congrArg Value.object ((eq_map_of_mapM hmembers ?_).trans (sortedByKey_map _))
      intro member hmember result hresult
      obtain ⟨hkey, -, hitem⟩ := hplain.member member (mem_sortedByKey.mp hmember)
      rw [hkey, if_neg Bool.false_ne_true] at hresult
      obtain ⟨schemas, hschemas, hresult⟩ := bind_eq_ok.mp hresult
      obtain ⟨inner, hinner, hresult⟩ := bind_eq_ok.mp hresult
      cases hresult
      change (member.1, inner) = (member.1, (memberCover root levels candidates member).read copied)
      rw [memberCover_ok hschemas, ← ih hitem hinner]
    | array happlied hshown =>
      obtain ⟨results, hitems, h⟩ := bind_eq_ok.mp (shown_of_ok happlied hshown h)
      cases h
      rw [read_array, map_map]
      refine congrArg Value.array (eq_map_of_mapM hitems ?_)
      intro item hitem result hresult
      exact ih (hplain.item item.1 (fst_mem_of_mem_zipIdx hitem)) hresult
    | scalar hscalar happlied hshown =>
      have h := shown_of_ok happlied hshown h
      cases value with
      | array | object => cases hscalar
      | string found =>
        have hfound : resemblesCredential found = false := hplain.credential
        dsimp only at h
        rw [hfound, if_neg Bool.false_ne_true] at h
        exact (Except.ok.inj h).symm
      | null | bool | number => exact (Except.ok.inj h).symm

/-- The kept form and the secrets of a result read its cover. -/
theorem keptAt_cover {kept place} (hplain : Plain protectedValues value)
    (h : keptAt root protectedValues levels value sub name place = .ok kept) :
    kept = ((coverAt root levels value sub name).read emptied,
        (coverAt root levels value sub name).read pointers place) ∧
      secretStrings root levels value sub name = .ok ((coverAt root levels value sub name).read secrets) := by
  induction levels generalizing value sub name place kept with
  | zero => exact ⟨(Except.ok.inj h).symm, rfl⟩
  | succ levels ih =>
    change (if ((secretAt root sub name value).2 || unsafeValue protectedValues value) = true then _ else _) = _ at h
    rw [hplain.not_unsafe, Bool.or_false] at h
    change _ ∧ (if (secretAt root sub name value).2 = true then _ else _) = _
    generalize hcover : coverAt root (levels + 1) value sub name = cover
    cases coverStep hcover with
    | hidden hsecret =>
      rw [if_pos hsecret] at h ⊢
      exact ⟨(Except.ok.inj h).symm, rfl⟩
    | @object found candidates happlied hshown =>
      simp only [secretAt_ok happlied, hshown, Bool.false_eq_true, if_false] at h ⊢
      obtain ⟨inside, hmembers, h⟩ := bind_eq_ok.mp h
      cases h
      have hinside : inside = found.map fun member =>
          ((member.1, (memberCover root levels candidates member).read emptied),
            (memberCover root levels candidates member).read pointers
              (memberPointer place member.1)) := by
        refine eq_map_of_mapM hmembers ?_
        intro member hmember result hresult
        obtain ⟨schemas, hschemas, hresult⟩ := bind_eq_ok.mp hresult
        obtain ⟨inner, hinner, hresult⟩ := bind_eq_ok.mp hresult
        cases hresult
        obtain ⟨-, -, hitem⟩ := hplain.member member hmember
        rw [memberCover_ok hschemas, (ih hitem hinner).1]
      have hcollected : (found.mapM fun member => do
          let schemas ← memberSchemas candidates member.1
          secretStrings root levels member.2 schemas member.1) =
          .ok (found.map fun member => (memberCover root levels candidates member).read secrets) := by
        refine mapM_eq_map ?_
        intro member hmember
        obtain ⟨result, -, hresult⟩ := exists_right_of_mem (mapM_eq_ok.mp hmembers) hmember
        obtain ⟨schemas, hschemas, hresult⟩ := bind_eq_ok.mp hresult
        obtain ⟨inner, hinner, -⟩ := bind_eq_ok.mp hresult
        obtain ⟨-, -, hitem⟩ := hplain.member member hmember
        rw [hschemas, ok_bind, memberCover_ok hschemas, (ih hitem hinner).2]
      rw [read_object, read_object, read_object, hinside]
      simp only [map_map, emptied, pointers, flatMap_def, hcollected, ok_bind, secrets, Function.comp_def, and_self]
    | @array items candidates happlied hshown =>
      simp only [secretAt_ok happlied, hshown, Bool.false_eq_true, if_false] at h ⊢
      obtain ⟨inside, hitems, h⟩ := bind_eq_ok.mp h
      cases h
      have hinside : inside = items.zipIdx.map fun item =>
          ((coverAt root levels item.1 (itemSchemas candidates item.2) name).read emptied,
            (coverAt root levels item.1 (itemSchemas candidates item.2) name).read pointers
              (itemPointer place item.2)) := by
        refine eq_map_of_mapM hitems ?_
        intro item hitem result hresult
        exact (ih (hplain.item item.1 (fst_mem_of_mem_zipIdx hitem)) hresult).1
      have hcollected : (items.zipIdx.mapM fun item =>
          secretStrings root levels item.1 (itemSchemas candidates item.2) name) =
          .ok (items.zipIdx.map fun item =>
            (coverAt root levels item.1 (itemSchemas candidates item.2) name).read secrets) := by
        refine mapM_eq_map ?_
        intro item hitem
        obtain ⟨result, -, hresult⟩ := exists_right_of_mem (mapM_eq_ok.mp hitems) hitem
        exact (ih (hplain.item item.1 (fst_mem_of_mem_zipIdx hitem)) hresult).2
      rw [read_array, read_array, read_array, hinside]
      simp only [map_map, emptied, pointers, flatMap_def, zipIdx_map, zipIdx_zipIdx, hcollected,
        ok_bind, secrets, Function.comp_def, Prod.map, id, and_self]
    | scalar hscalar happlied hshown =>
      rw [secretAt_ok happlied, hshown, if_neg Bool.false_ne_true] at h ⊢
      cases value with
      | array | object => cases hscalar
      | null | bool | number | string => exact ⟨(Except.ok.inj h).symm, rfl⟩

theorem secretLiteralAt_cover {found} (h : secretLiteralAt root levels name (some value) sub = .ok found) :
    found = (coverAt root levels value sub name).read hides := by
  induction levels generalizing value sub name found with
  | zero => exact (Except.ok.inj h).symm
  | succ levels ih =>
    generalize hcover : coverAt root (levels + 1) value sub name = cover
    cases coverStep hcover with
    | hidden hsecret => exact hidden_of_ok hsecret h
    | @object found candidates happlied hshown =>
      rw [read_object, map_map]
      have h := shown_of_ok happlied hshown h
      refine (anyOk_eq_any h ?_).trans any_map.symm
      intro member hmember result hresult
      obtain ⟨schemas, hschemas, hresult⟩ := bind_eq_ok.mp hresult
      change result = (memberCover root levels candidates member).read hides
      rw [memberCover_ok hschemas, ← ih hresult]
    | array happlied hshown =>
      rw [read_array, map_map]
      have h := shown_of_ok happlied hshown h
      refine (anyOk_eq_any h ?_).trans any_map.symm
      intro item hitem result hresult
      exact ih hresult
    | scalar hscalar happlied hshown =>
      have h := shown_of_ok happlied hshown h
      cases value with
      | array | object => cases hscalar
      | null | bool | number | string => exact (Except.ok.inj h).symm

theorem safeNode_cover {safe} (hplain : Plain protectedValues value)
    (h : safeNode root protectedValues levels value sub name = .ok safe) :
    safe = (coverAt root levels value sub name).read projected := by
  induction levels generalizing value sub name safe with
  | zero => exact (Except.ok.inj h).symm
  | succ levels ih =>
    generalize hcover : coverAt root (levels + 1) value sub name = cover
    cases coverStep hcover with
    | hidden hsecret => exact hidden_of_ok hsecret h
    | @object found candidates happlied hshown =>
      obtain ⟨shown, hentries, h⟩ := bind_eq_ok.mp (shown_of_ok happlied hshown h)
      cases h
      have hshown : shown = (sortedByKey found).map fun member =>
          .array [text member.1, (memberCover root levels candidates member).read projected] := by
        refine safeEntries_plain hentries ?_ ?_
        · intro member hmember
          obtain ⟨hcredential, hprotected, -⟩ := hplain.member member (mem_sortedByKey.mp hmember)
          exact ⟨hcredential, hprotected⟩
        · intro member hmember result hresult
          obtain ⟨-, -, hitem⟩ := hplain.member member (mem_sortedByKey.mp hmember)
          cases hschemas : memberSchemas candidates member.1 with
          | error refusal =>
            rw [memberCover, hschemas]
            rw [hschemas] at hresult
            exact (Except.ok.inj hresult).symm
          | ok schemas =>
            rw [memberCover_ok hschemas]
            rw [hschemas] at hresult
            exact ih hitem hresult
      rw [read_object, map_map, hshown]
      simp only [projected, Function.comp_def, ← sortedByKey_map, map_map]
    | array happlied hshown =>
      obtain ⟨shown, hitems, h⟩ := bind_eq_ok.mp (shown_of_ok happlied hshown h)
      cases h
      rw [read_array, map_map]
      refine congrArg projected.array (eq_map_of_mapM hitems ?_)
      intro item hitem result hresult
      exact ih (hplain.item item.1 (fst_mem_of_mem_zipIdx hitem)) hresult
    | scalar hscalar happlied hshown =>
      have h := shown_of_ok happlied hshown h
      cases value with
      | array | object => cases hscalar
      | string found =>
        have hfound : protects found protectedValues = false := hplain.protectedText
        dsimp only at h
        rw [hfound, if_neg Bool.false_ne_true] at h
        exact (Except.ok.inj h).symm
      | null | bool | number => exact (Except.ok.inj h).symm

end

section

variable [Platform] [SchemaEngine]

def coverOf (schema value : Value) : Cover :=
  coverAt (rootOf schema) (maxSafeOutputDepth + 1) value (.node (rootOf schema)) ""

theorem coverAt_original (root : Value) (levels value) (sub : Sub) (name) :
    (coverAt root levels value sub name).read original = value := by
  induction levels generalizing value sub name with
  | zero => rfl
  | succ levels ih =>
    generalize hcover : coverAt root (levels + 1) value sub name = cover
    cases coverStep hcover with
    | hidden | scalar => rfl
    | @object found candidates =>
      have hmember (member : String × Value) :
          (memberCover root levels candidates member).read original = member.2 := by
        cases hschemas : memberSchemas candidates member.1 with
        | error refusal =>
          rw [memberCover, hschemas]
          rfl
        | ok schemas => rw [memberCover_ok hschemas, ih]
      rw [read_object]
      refine congrArg Value.object ?_
      simp only [map_map, Function.comp_def, hmember, Prod.mk.eta, map_id']
    | array =>
      rw [read_array]
      refine congrArg Value.array ?_
      simp only [map_map, Function.comp_def, ih, zipIdx_map_fst]

structure Blank (candidates : List Value) : Prop where
  members : ∀ key, memberSchemas candidates key = .ok (.allOf [])
  items : ∀ index, itemSchemas candidates index = .allOf []
  secret : ∀ root name, secretPosition root name candidates = secretName name

theorem blank_nil : Blank [] where
  members _ := rfl
  items _ := rfl
  secret _ _ := by simp [secretPosition]

theorem blank_empty : Blank [.object []] where
  members _ := rfl
  items _ := rfl
  secret _ _ := by simp [secretPosition, marked, fieldOf, string, unmodelled, Value.get]

/-- Two positions that nothing is said of are covered alike. -/
theorem coverAt_blank {value name root levels other sub candidates otherSub others} (hbelow : ∀ value name,
      coverAt root levels value (.allOf []) name = coverAt other levels value (.allOf []) name)
    (happlied : applicable root sub (.value value) = .ok candidates) (hblank : Blank candidates)
    (hother : applicable other otherSub (.value value) = .ok others) (hblanks : Blank others) :
    coverAt root (levels + 1) value sub name = coverAt other (levels + 1) value otherSub name := by
  simp only [coverAt, happlied, hother, hblank.secret, hblanks.secret, hblank.members,
    hblanks.members, hblank.items, hblanks.items, hbelow]

/-- Where no schema applies, the root is never looked at. -/
theorem coverAt_unapplied (root other levels value name) :
    coverAt root levels value (.allOf []) name = coverAt other levels value (.allOf []) name := by
  induction levels generalizing value name with
  | zero => rfl
  | succ levels ih => exact coverAt_blank ih rfl blank_nil rfl blank_nil

/-- A schema that is no object covers as the empty object does. -/
theorem coverAt_rootOf (schema levels value) : coverAt schema levels value (.node schema) "" =
      coverAt (rootOf schema) levels value (.node (rootOf schema)) "" := by
  cases schema with
  | object => rfl
  | null | bool | number | string | array =>
    cases levels with
    | zero => rfl
    | succ levels => exact coverAt_blank (coverAt_unapplied _ _ levels) rfl blank_nil rfl blank_empty

/-- Every walker that decides what may be secret reads one cover of a plain value: it is kept without
exactly the positions that its safe form redacts or elides and its preview replaces, the strings under
these are the secrets collected, and a literal is refused exactly when there is such a position. -/
theorem walkers_read_one_cover (schema value : Value) (protectedValues : List String)
    (hplain : Plain (protectedOf protectedValues) value) {kept : Kept} {literal : Bool} {safe preview : Value}
    (hkept : keep value schema protectedValues = .ok kept) (hfits : kept.oversize = false)
    (hliteral : secretLiteral schema value = .ok literal)
    (hsafe : outputSafe value schema protectedValues = .ok safe) (hpreview : previewOf schema value = .ok preview) :
    (kept.withheld = [] ↔ literal = false) ∧
      (coverOf schema value).read original = value ∧
      kept.value = (coverOf schema value).read emptied ∧
      kept.withheld = OrderedMap.setOf id ((coverOf schema value).read pointers "") ∧
      safe = (coverOf schema value).read projected ∧
      preview = (coverOf schema value).read copied ∧
      secretValues value schema = .ok ((coverOf schema value).read secrets) := by
  obtain ⟨found, hfound, hkept⟩ := bind_eq_ok.mp hkept
  have hbounded : ¬maxKeptBytes < encodedBytes found.1 := by
    intro hlarge
    rw [if_pos hlarge] at hkept
    cases hkept
    cases hfits
  rw [if_neg hbounded] at hkept
  cases hkept
  obtain ⟨hcover, hsecrets⟩ := keptAt_cover hplain hfound
  have hhides : literal = (coverOf schema value).read hides := by
    rw [secretLiteralAt_cover hliteral, coverAt_rootOf]
    rfl
  have hcopied : preview = (coverOf schema value).read copied := by
    rw [redacted_cover hplain hpreview, coverAt_rootOf]
    rfl
  have hnothing : OrderedMap.setOf id found.2 = [] ↔ found.2 = [] := by
    simp only [eq_nil_iff_forall_not_mem, OrderedMap.mem_setOf Function.injective_id]
  refine ⟨?_, coverAt_original _ _ _ _ _, congrArg Prod.fst hcover,
    congrArg (OrderedMap.setOf id) (congrArg Prod.snd hcover), safeNode_cover hplain hsafe, hcopied,
    hsecrets⟩
  change OrderedMap.setOf id found.2 = [] ↔ _
  rw [hnothing, hhides, congrArg Prod.snd hcover]
  exact pointers_eq_nil (coverOf schema value) ""

end

attribute [local instance] constantHashPlatform openEngine

/-- A plain value with one member its schema marks and one it does not. -/
def coveredValue : Value := objectOf [("a", text "b"), ("token", .array [text "c"])]

theorem walkers_read_one_cover_hidden :
    keep coveredValue .null ["", "z"] = .ok ⟨objectOf [("a", text "b"), ("token", .null)], ["/token"], false⟩ ∧
      secretLiteral .null coveredValue = .ok true ∧ secretValues coveredValue .null = .ok ["c"] := by
  have hkept : keep coveredValue .null ["", "z"] =
      .ok ⟨objectOf [("a", text "b"), ("token", .null)], ["/token"], false⟩ := by rfl
  have hliteral : secretLiteral .null coveredValue = .ok true := by rfl
  have hsecrets := (walkers_read_one_cover .null coveredValue ["", "z"] ⟨by decide, by decide⟩
    hkept rfl hliteral rfl rfl).2.2.2.2.2.2
  exact ⟨hkept, hliteral, hsecrets⟩

end ShimpzTeams.Routines.Recorder
