import ShimpzTeams.Routines.References

/-!
# What a safe form may show

Two results that differ only in their secrets have one safe form: which schemas
apply at a position depends on which members it holds and never on their values.
A safe form shows a text or a member name only where it is clean.
-/

namespace ShimpzTeams.Routines

open StrictJson Protocol Library List

section

variable [Platform]

/-- A text a safe form never shows: credential-shaped, or holding a protected value. -/
def guarded (protectedValues : List String) (found : String) : Bool :=
  resemblesCredential found || protects found protectedValues

mutual

/-- Two results that are equal except at members whose name marks them secret and for strings that
are guarded in both. -/
inductive Alike (protectedValues : List String) : Value → Value → Prop
  | same (value : Value) : Alike protectedValues value value
  | guardedStrings {left right} (hleft : guarded protectedValues left = true)
      (hright : guarded protectedValues right = true) :
      Alike protectedValues (.string left) (.string right)
  | arrays {lefts rights} (hitems : List.Forall₂ (Alike protectedValues) lefts rights) :
      Alike protectedValues (.array lefts) (.array rights)
  | objects {lefts rights} (hmembers : List.Forall₂ (AlikeMember protectedValues) lefts rights) :
      Alike protectedValues (.object lefts) (.object rights)

inductive AlikeMember (protectedValues : List String) : String × Value → String × Value → Prop
  | secret {key left right} (hsecret : secretName key = true) :
      AlikeMember protectedValues (key, left) (key, right)
  | alike {key left right} (halike : Alike protectedValues left right) :
      AlikeMember protectedValues (key, left) (key, right)

end

variable {protectedValues : List String}

theorem AlikeMember.key {left right} (h : AlikeMember protectedValues left right) : left.1 = right.1 := by
  cases h with
  | secret | alike => rfl

/-- Results that are alike hold the same members. -/
theorem Alike.depends {left right} (h : Alike protectedValues left right) (key) :
    (Held.value left).depends key = (Held.value right).depends key := by
  cases h with
  | same => rfl
  | guardedStrings => rfl
  | arrays => rfl
  | objects hmembers =>
    refine congrArg some ?_
    induction hmembers with
    | nil => rfl
    | cons hfirst _ ih => rw [any_cons, any_cons, hfirst.key, ih]

theorem guarded_node {found} (h : guarded protectedValues found = true) :
    (if protects found protectedValues then outputRedacted else safeScalar (.string found)) = outputRedacted := by
  cases hprotected : protects found protectedValues with
  | true => rfl
  | false =>
    have hcredential : resemblesCredential found = true := by
      rwa [guarded, hprotected, Bool.or_false] at h
    simp only [Bool.false_eq_true, if_false, safeScalar, hcredential, if_true]

end

section

variable {root : Value} {held other : Held}

/-- Which schemas apply depends on which members are held, and on nothing else. -/
theorem collect_congr (hdepends : ∀ key, held.depends key = other.depends key) (levels node) :
    collect root held levels node = collect root other levels node := by
  induction levels generalizing node with
  | zero => rfl
  | succ levels ih =>
    have hreached (found : Value) : reachedBy root held found = reachedBy root other found := by
      simp only [reachedBy, hdepends]
    match node with
    | some (.object found) =>
      change (do
        let reached ← (reachedBy root held (.object found)).mapM (collect root held levels)
        Except.ok (Value.object found :: reached.flatten)) = _
      rw [hreached, funext ih]
      rfl
    | none | some .null | some (.bool _) | some (.number _) | some (.string _) | some (.array _) => rfl

theorem applicable_congr (hdepends : ∀ key, held.depends key = other.depends key) (sub) :
    applicable root sub held = applicable root sub other := by
  cases sub with
  | node schema => exact collect_congr hdepends _ _
  | allOf schemas => simp only [applicable, collect_congr hdepends]

end

variable {shown : List Value} {levels redactedKeys : Nat} {name : String} {safe : Value} {sub : Sub}

section

/-- Members of the same keys, related one by one, are so once sorted. -/
theorem sortedByKey_forall₂ {lefts rights R}
    (h : List.Forall₂ R lefts rights) (hkey : ∀ left right, R left right → left.1 = right.1) :
    List.Forall₂ R (sortedByKey lefts) (sortedByKey rights) := by
  obtain ⟨hlength, hpairs⟩ := List.forall₂_iff_zip.mp h
  -- the pairs are sorted as one list, of which both sorted lists are projections
  let pairs := (lefts.zip rights).insertionSort fun left right => left.1.1 ≤ right.1.1
  have hmem : ∀ pair ∈ pairs, R pair.1 pair.2 := by
    intro pair hpair
    exact hpairs ((perm_insertionSort _ _).mem_iff.mp hpair)
  have hleft : pairs.map Prod.fst = sortedByKey lefts := by
    refine (map_insertionSort _ (fun (left right : String × Value) => left.1 ≤ right.1) _ _ ?_).trans ?_
    · exact fun _ _ _ _ => Iff.rfl
    · rw [map_fst_zip hlength.le]
      rfl
  have hright : pairs.map Prod.snd = sortedByKey rights := by
    refine (map_insertionSort _ (fun left right => left.1 ≤ right.1) _ _ ?_).trans ?_
    · intro left hleft right hright
      rw [hkey _ _ (hpairs hleft), hkey _ _ (hpairs hright)]
    · rw [map_snd_zip hlength.ge]
      rfl
  rw [← hleft, ← hright, List.forall₂_map_left_iff, List.forall₂_map_right_iff, List.forall₂_same]
  exact hmem

/-- Two results whose items are related one by one have the same shown items where each two have. -/
theorem mapM_zipIdx_congr {lefts rights} {first second : Value × Nat → Except PlanError Value} {start other}
    (hitems : List.Forall₂ (fun left right => ∀ index node node', first (left, index) = .ok node →
      second (right, index) = .ok node' → node = node') lefts rights)
    (hleft : (lefts.zipIdx start).mapM first = .ok shown)
    (hright : (rights.zipIdx start).mapM second = .ok other) : shown = other := by
  induction hitems generalizing start shown other with
  | nil => exact Except.ok.inj (hleft.symm.trans hright)
  | cons hfirst _ ih =>
    rw [zipIdx_cons, mapM_cons] at hleft hright
    obtain ⟨node, hnode, hleft⟩ := bind_eq_ok.mp hleft
    obtain ⟨node', hnode', hright⟩ := bind_eq_ok.mp hright
    obtain ⟨later, hlater, hleft⟩ := bind_eq_ok.mp hleft
    obtain ⟨later', hlater', hright⟩ := bind_eq_ok.mp hright
    cases hleft
    cases hright
    rw [hfirst start node node' hnode hnode', ih hlater hlater']

variable [Platform] {root : Value} {protectedValues : List String}

/-- Two lists of members of the same keys have the same entries where each two members have. -/
theorem safeEntries_congr {lefts rights first second other}
    (hmembers : List.Forall₂ (fun left right => left.1 = right.1 ∧ ∀ node node',
      first left.1 left.2 = .ok node → second right.1 right.2 = .ok node' → node = node') lefts rights)
    (hleft : safeEntries protectedValues first redactedKeys lefts = .ok shown)
    (hright : safeEntries protectedValues second redactedKeys rights = .ok other) : shown = other := by
  induction hmembers generalizing redactedKeys shown other with
  | nil => exact Except.ok.inj (hleft.symm.trans hright)
  | @cons left right lefts rights hfirst _ ih =>
    obtain ⟨key, leftItem⟩ := left
    obtain ⟨key', rightItem⟩ := right
    obtain ⟨hkey, hnode⟩ := hfirst
    obtain rfl : key = key' := hkey
    rw [safeEntries] at hleft hright
    cases hguarded : resemblesCredential key || protects key protectedValues with
    | true =>
      rw [hguarded, if_pos rfl] at hleft hright
      obtain ⟨later, hlater, rfl⟩ := map_eq_ok.mp hleft
      obtain ⟨later', hlater', rfl⟩ := map_eq_ok.mp hright
      rw [ih hlater hlater']
    | false =>
      rw [hguarded, if_neg Bool.false_ne_true] at hleft hright
      obtain ⟨node, hnode₁, hleft⟩ := bind_eq_ok.mp hleft
      obtain ⟨node', hnode₂, hright⟩ := bind_eq_ok.mp hright
      obtain ⟨later, hlater, hleft⟩ := bind_eq_ok.mp hleft
      obtain ⟨later', hlater', hright⟩ := bind_eq_ok.mp hright
      cases hleft
      cases hright
      rw [hnode node node' hnode₁ hnode₂, ih hlater hlater']

variable [SchemaEngine]

/-- A position whose name marks it secret is redacted, whatever it holds. -/
theorem safeNode_secretName {value} (hname : secretName name = true)
    (h : safeNode root protectedValues (levels + 1) value sub name = .ok safe) : safe = outputRedacted := by
  obtain ⟨candidates, -, h⟩ := bind_eq_ok.mp h
  have hsecret : secretPosition root name candidates = true := by
    rw [secretPosition, hname, Bool.true_or, Bool.true_or]
  rw [hsecret, if_pos rfl] at h
  exact (Except.ok.inj h).symm

/-- Results that are alike have one safe form. -/
theorem safeNode_alike {left right other} (halike : Alike protectedValues left right)
    (hleft : safeNode root protectedValues levels left sub name = .ok safe)
    (hright : safeNode root protectedValues levels right sub name = .ok other) : safe = other := by
  induction levels generalizing left right sub name safe other with
  | zero => exact Except.ok.inj (hleft.symm.trans hright)
  | succ levels ih =>
    obtain ⟨candidates, happlied, hleft'⟩ := bind_eq_ok.mp hleft
    obtain ⟨candidates', happlied', hright'⟩ := bind_eq_ok.mp hright
    rw [applicable_congr halike.depends, happlied'] at happlied
    obtain rfl := Except.ok.inj happlied
    cases hsecret : secretPosition root name candidates' with
    | true =>
      rw [hsecret, if_pos rfl] at hleft' hright'
      exact Except.ok.inj (hleft'.symm.trans hright')
    | false =>
      rw [hsecret, if_neg Bool.false_ne_true] at hleft' hright'
      cases halike with
      | same => exact Except.ok.inj (hleft.symm.trans hright)
      | guardedStrings hguarded hguarded' =>
        have hfirst := (Except.ok.inj hleft').symm.trans (guarded_node hguarded)
        have hsecond := (Except.ok.inj hright').symm.trans (guarded_node hguarded')
        exact hfirst.trans hsecond.symm
      | arrays hitems =>
        obtain ⟨shown, hshown, hleft'⟩ := bind_eq_ok.mp hleft'
        obtain ⟨shown', hshown', hright'⟩ := bind_eq_ok.mp hright'
        obtain rfl := Except.ok.inj hleft'
        obtain rfl := Except.ok.inj hright'
        have hsame : shown = shown' := by
          refine mapM_zipIdx_congr (hitems.imp ?_) hshown hshown'
          intro item item' hitem index node node' hnode hnode'
          exact ih hitem hnode hnode'
        rw [hsame]
      | objects hmembers =>
        obtain ⟨shown, hshown, hleft'⟩ := bind_eq_ok.mp hleft'
        obtain ⟨shown', hshown', hright'⟩ := bind_eq_ok.mp hright'
        obtain rfl := Except.ok.inj hleft'
        obtain rfl := Except.ok.inj hright'
        have hsame : shown = shown' := by
          refine safeEntries_congr ((sortedByKey_forall₂ hmembers fun _ _ => AlikeMember.key).imp ?_)
            hshown hshown'
          intro member member' hmember
          refine ⟨hmember.key, ?_⟩
          intro node node' hnode hnode'
          rw [← hmember.key] at hnode'
          cases hschemas : memberSchemas candidates' member.1 with
          | error =>
            rw [hschemas] at hnode hnode'
            exact Except.ok.inj (hnode.symm.trans hnode')
          | ok schemas =>
            rw [hschemas] at hnode hnode'
            cases hmember with
            | alike halike => exact ih halike hnode hnode'
            | secret hname =>
              cases levels with
              | zero => exact Except.ok.inj (hnode.symm.trans hnode')
              | succ levels =>
                exact (safeNode_secretName hname hnode).trans
                  (safeNode_secretName hname hnode').symm
        rw [hsame]

end

section

/-- The entries of a safe object: the `n`-th redacted key reads as a label of its own, a kept key as
itself. -/
def labelledEntries : Nat → List (Option String × Value) → List Value
  | _, [] => []
  | redacted, (none, node) :: rest =>
    .array [text (redactedLabel (redacted + 1)), node] :: labelledEntries (redacted + 1) rest
  | redacted, (some key, node) :: rest => .array [text key, node] :: labelledEntries redacted rest

variable [Platform]

inductive SafeForm (protectedValues : List String) : Value → Prop
  | redacted : SafeForm protectedValues outputRedacted
  | elided : SafeForm protectedValues outputElided
  | null : SafeForm protectedValues (objectOf [("kind", text "null")])
  | bool (flag : Bool) : SafeForm protectedValues (objectOf [("kind", text "bool"), ("value", .bool flag)])
  | number (number : Number) :
      SafeForm protectedValues (objectOf [("kind", text "number"), ("value", .number number)])
  | text (found : String) (hclean : guarded protectedValues found = false) :
      SafeForm protectedValues
        (objectOf [("kind", Protocol.text "text"), ("value", Protocol.text found), ("cut", .bool false)])
  | list (items : List Value) (hitems : ∀ item ∈ items, SafeForm protectedValues item) :
      SafeForm protectedValues
        (objectOf [("kind", Protocol.text "list"), ("items", .array items), ("omitted", int 0)])
  | fields (entries : List (Option String × Value))
      (hredacted : ∀ entry ∈ entries, entry.1 = none → entry.2 = outputRedacted)
      (hkept : ∀ entry ∈ entries, ∀ key, entry.1 = some key → guarded protectedValues key = false)
      (hnodes : ∀ entry ∈ entries, SafeForm protectedValues entry.2) :
      SafeForm protectedValues (objectOf [("kind", Protocol.text "fields"),
        ("fields", .array (labelledEntries 0 entries)), ("omitted", int 0)])

variable {protectedValues : List String}

theorem safeEntries_labelled {member}
    (hmember : ∀ key item node, member key item = .ok node → SafeForm protectedValues node)
    {found} (h : safeEntries protectedValues member redactedKeys found = .ok shown) :
    ∃ entries, shown = labelledEntries redactedKeys entries ∧
      ∀ entry ∈ entries, (entry.1 = none → entry.2 = outputRedacted) ∧
        (∀ key, entry.1 = some key → guarded protectedValues key = false) ∧ SafeForm protectedValues entry.2 := by
  induction found generalizing redactedKeys shown with
  | nil =>
    refine ⟨[], (Except.ok.inj h).symm, ?_⟩
    intro entry hentry
    cases hentry
  | cons first rest ih =>
    obtain ⟨key, item⟩ := first
    rw [safeEntries] at h
    cases hguarded : resemblesCredential key || protects key protectedValues with
    | true =>
      rw [hguarded, if_pos rfl] at h
      obtain ⟨later, hlater, rfl⟩ := map_eq_ok.mp h
      obtain ⟨entries, rfl, hentries⟩ := ih hlater
      refine ⟨(none, outputRedacted) :: entries, rfl, ?_⟩
      rw [forall_mem_cons]
      refine ⟨⟨fun _ => rfl, ?_, .redacted⟩, hentries⟩
      intro key hkey
      cases hkey
    | false =>
      rw [hguarded, if_neg Bool.false_ne_true] at h
      obtain ⟨node, hnode, h⟩ := bind_eq_ok.mp h
      obtain ⟨later, hlater, h⟩ := bind_eq_ok.mp h
      cases h
      obtain ⟨entries, rfl, hentries⟩ := ih hlater
      refine ⟨(some key, node) :: entries, rfl, ?_⟩
      rw [forall_mem_cons]
      refine ⟨⟨?_, ?_, hmember key item node hnode⟩, hentries⟩
      · intro hnone
        cases hnone
      · intro kept hkept
        rw [← Option.some.inj hkept]
        exact hguarded

variable [SchemaEngine]

theorem safeNode_form {root value}
    (h : safeNode root protectedValues levels value sub name = .ok safe) : SafeForm protectedValues safe := by
  induction levels generalizing value sub name safe with
  | zero =>
    cases h
    exact .elided
  | succ levels ih =>
    obtain ⟨candidates, -, h⟩ := bind_eq_ok.mp h
    cases hsecret : secretPosition root name candidates with
    | true =>
      rw [hsecret, if_pos rfl] at h
      cases h
      exact .redacted
    | false =>
      rw [hsecret, if_neg Bool.false_ne_true] at h
      cases value with
      | object found =>
        obtain ⟨shown, hshown, h⟩ := bind_eq_ok.mp h
        cases h
        obtain ⟨entries, rfl, hentries⟩ : ∃ entries, _ := by
          refine safeEntries_labelled ?_ hshown
          intro key item node hnode
          cases hschemas : memberSchemas candidates key with
          | error =>
            rw [hschemas] at hnode
            cases hnode
            exact .redacted
          | ok schemas =>
            rw [hschemas] at hnode
            exact ih hnode
        exact .fields entries (fun entry hentry => (hentries entry hentry).1)
          (fun entry hentry => (hentries entry hentry).2.1)
          (fun entry hentry => (hentries entry hentry).2.2)
      | array items =>
        obtain ⟨shown, hshown, h⟩ := bind_eq_ok.mp h
        cases h
        refine .list shown ?_
        intro node hnode
        obtain ⟨item, -, hitem⟩ := exists_left_of_mem (mapM_eq_ok.mp hshown) hnode
        exact ih hitem
      | string found =>
        cases h
        cases hguarded : guarded protectedValues found with
        | true =>
          rw [guarded_node hguarded]
          exact .redacted
        | false =>
          have hparts := Bool.or_eq_false_iff.mp hguarded
          rw [hparts.2, if_neg Bool.false_ne_true, safeScalar, hparts.1, if_neg Bool.false_ne_true]
          exact .text found hguarded
      | null =>
        cases h
        exact .null
      | bool flag =>
        cases h
        exact .bool flag
      | number found =>
        cases h
        exact .number found

end

section

variable [Platform] [SchemaEngine]

/-- A safe form does not depend on a result's secrets, and shows none of them: results that are alike
have one safe form, compared text and shown output, and no text or kept member name of any safe form is
guarded. -/
theorem safe_form_shows_no_secret (schema : Value) (protectedValues : List String) :
    (∀ left right safe other, Alike (protectedOf protectedValues) left right →
      outputSafe left schema protectedValues = .ok safe →
      outputSafe right schema protectedValues = .ok other →
        safe = other ∧ outputCompared safe = outputCompared other ∧
          ∀ step, outputShown step safe = outputShown step other) ∧
      ∀ result safe, outputSafe result schema protectedValues = .ok safe →
        SafeForm (protectedOf protectedValues) safe := by
  constructor
  · intro left right safe other halike hleft hright
    have hsame : safe = other := safeNode_alike halike hleft hright
    exact ⟨hsame, congrArg outputCompared hsame, fun step => congrArg (outputShown step) hsame⟩
  · intro result safe hsafe
    exact safeNode_form hsafe

end

attribute [local instance] constantHashPlatform openEngine

def tokenResult (secret : Value) : Value := objectOf [("token", secret)]

theorem safe_form_shows_no_secret_token :
    outputSafe (tokenResult (text "x")) .null [] = outputSafe (tokenResult (.array [.null])) .null [] := by
  have halike : Alike (protectedOf []) (tokenResult (text "x")) (tokenResult (.array [.null])) :=
    .objects (.cons (.secret (by decide)) .nil)
  have hleft : outputSafe (tokenResult (text "x")) .null [] =
      .ok (objectOf [("kind", text "fields"), ("fields", .array [.array [text "token", outputRedacted]]),
        ("omitted", int 0)]) := by rfl
  have hright : outputSafe (tokenResult (.array [.null])) .null [] =
      .ok (objectOf [("kind", text "fields"), ("fields", .array [.array [text "token", outputRedacted]]),
        ("omitted", int 0)]) := by rfl
  have hsame := ((safe_form_shows_no_secret .null []).1 _ _ _ _ halike hleft hright).1
  rw [hleft, hright, hsame]

end ShimpzTeams.Routines
